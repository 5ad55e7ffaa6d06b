import SnacMachine.Lib.Act
import SnacMachine.Dns.Skeleton
import SnacMachine.Mdns.Tsr

/-!
# Stamps in messages

How `mdns/tsr.rs` puts stamps into a message and reads them back. A stamp travels in an option of
the message's OPT record and refers to the owner of a record by the position of that record among
all records of the message. `extract` reads the stamps, `attachInner` writes those that a lookup
gives for the owners of the message, and `filtered` takes records out of a message and writes the
stamps of the others at their new positions. What is written is read back
(`attachInner_extract`), so filtering loses no stamp, and filters compose (`filtered_stamps`).
-/

namespace SnacMachine.Mdns

open SnacMachine.Dns

/-- Reference: `MAX_OPTIONS` (`mdns/tsr.rs:12`). -/
def maxOptions : Nat := 128

/-- Reference: `invalid` (`mdns/tsr.rs:51`). -/
def tsrInvalid : IoError := ⟨.invalidData, "invalid or excessive TSR options"⟩

/-- Whether a stamp may refer to the record at a position; the known answers of a query are exempt.
Reference: `applies` (`mdns/tsr.rs:60`). -/
def applies (m : Message) (index : Nat) (r : Record) : Bool :=
  r.kind != 41 && (m.flags &&& 0x8000 != 0 || decide (m.answers.length ≤ index))

/-- Whether a record holds options. -/
def isOpt (r : Record) : Bool :=
  match r.data with
  | .opt _ => true
  | _ => false

/-- The options that a record holds. -/
def optionsOf (r : Record) : List (UInt16 × Bytes) :=
  match r.data with
  | .opt options => options
  | _ => []

/-- The options of a message. -/
def options (m : Message) : List (UInt16 × Bytes) := m.additional.flatMap optionsOf

/-! ## Reading stamps -/

/-- The owner and the stamp of an option, unless it is malformed or refers to no record. Reference:
`mdns/tsr.rs:79`. -/
def mark (m : Message) (received : Nat) (b : Bytes) : Option (Name × Stamp) :=
  (Stamp.decode b received).bind fun s =>
    ((m.records[s.1.toNat]?).filter (applies m s.1.toNat)).map fun r => (r.name, s.2)

/-- The variables of the loop of `extract`. -/
structure Extraction where
  out : OrdMap Name Stamp
  seen : OrdMap Name Unit
  count : Nat

/-- Takes the stamp of an owner, or cancels the one that the owner has. Reference:
`mdns/tsr.rs:87`. -/
def Extraction.note (s : Extraction) (e : Name × Stamp) : Extraction :=
  if s.seen.contains e.1 then { s with out := s.out.remove e.1 }
  else { s with out := s.out.insert e.1 e.2, seen := s.seen.insert e.1 () }

/-- One option. Reference: `mdns/tsr.rs:74`. -/
def Extraction.option (m : Message) (received : Nat) (s : Extraction) (o : UInt16 × Bytes) :
    Except IoError Extraction :=
  if s.count + 1 > maxOptions then .error tsrInvalid
  else
    .ok ((mark m received o.2).elim { s with count := s.count + 1 } fun e =>
      Extraction.note { s with count := s.count + 1 } e)

/-- The stamps of a message. Reference: `extract` (`mdns/tsr.rs:63`). -/
def extract (m : Message) (code : UInt16) (received : Nat) :
    Except IoError (OrdMap Name Stamp) :=
  if code = 0 ∨ m.records.length > 512 then .error tsrInvalid
  else do
    let s ← ((options m).filter fun o => o.1 == code).foldlM (Extraction.option m received)
      ⟨.empty, .empty, 0⟩
    .ok s.out

/-! ## Writing stamps -/

/-- The variables of the loop of `attach_inner`. -/
structure Attachment where
  seen : OrdMap Name Unit
  values : List (UInt16 × Bytes)

/-- One record and its position. Reference: `mdns/tsr.rs:116`. -/
def Attachment.record (m : Message) (code : UInt16) (now : Nat) (lookup : Name → Option Stamp)
    (mine : Bool) (s : Attachment) (e : Record × Nat) : Except IoError Attachment :=
  if applies m e.2 e.1 = false then .ok s
  else
    match lookup e.1.name with
    | none => .ok s
    | some stamp =>
      if mine = true ∧ m.flags &&& 0x8000 ≠ 0 ∧ e.1.cls &&& 0x8000 = 0 then .error tsrInvalid
      else if s.seen.contains e.1.name then .ok s
      else if s.values.length = maxOptions then .error tsrInvalid
      else .ok ⟨s.seen.insert e.1.name (),
        s.values ++ [(code, stamp.encode (UInt16.ofNat e.2) now)]⟩

/-- The options for the stamps of a message's owners. Reference: `mdns/tsr.rs:114`. -/
def stampOptions (m : Message) (code : UInt16) (now : Nat) (lookup : Name → Option Stamp)
    (mine : Bool) : Except IoError (List (UInt16 × Bytes)) := do
  let s ← m.records.zipIdx.foldlM (Attachment.record m code now lookup mine) ⟨.empty, []⟩
  .ok s.values

/-- Options of a code in place of those that the first OPT record holds, if there is one. Reference:
`mdns/tsr.rs:135`. -/
def replaceOptions (code : UInt16) (values : List (UInt16 × Bytes)) :
    List Record → Option (List Record)
  | [] => none
  | r :: rs =>
    match r.data with
    | .opt options =>
      some ({ r with data := .opt (options.filter (fun o => o.1 != code) ++ values) } :: rs)
    | _ => (replaceOptions code values rs).map (r :: ·)

/-- The OPT record for a message that has none. Reference: `mdns/tsr.rs:148`. -/
def optRecord (values : List (UInt16 × Bytes)) : Record := ⟨.root, 41, 9000, 0, .opt values⟩

/-- Puts options into a message. Reference: `mdns/tsr.rs:135`. -/
def place (m : Message) (code : UInt16) (values : List (UInt16 × Bytes)) : Except IoError Message :=
  match replaceOptions code values m.additional with
  | some additional => .ok { m with additional := additional }
  | none =>
    if values = [] then .ok m
    else if m.records.length = 512 then .error tsrInvalid
    else .ok { m with additional := m.additional ++ [optRecord values] }

/-- Writes the stamps that `lookup` gives; `mine` is the source's `local`. Reference: `attach_inner`
(`mdns/tsr.rs:104`). -/
def attachInner (m : Message) (code : UInt16) (now : Nat) (lookup : Name → Option Stamp)
    (mine : Bool) : Except IoError Message :=
  if code = 0 ∨ m.records.length > 512 then .error tsrInvalid
  else do
    let values ← stampOptions m code now lookup mine
    place m code values

/-- Reference: `attach` (`mdns/tsr.rs:96`). -/
def attach (m : Message) (code : UInt16) (now : Nat) (lookup : Name → Option Stamp) :
    Except IoError Message :=
  attachInner m code now lookup true

/-- A message without the records of some owners, before its stamps are written. Reference:
`mdns/tsr.rs:209`. -/
def without (m : Message) (ignored : OrdMap Name Unit) : Message :=
  { m with
    answers := m.answers.filter fun r => !ignored.contains r.name
    authority := m.authority.filter fun r => !ignored.contains r.name
    additional := m.additional.filter fun r => r.kind == 41 || !ignored.contains r.name }

/-- Reference: `filtered` (`mdns/tsr.rs:202`). -/
def filtered (m : Message) (ignored : OrdMap Name Unit) (stamps : OrdMap Name Stamp) (now : Nat)
    (code : UInt16) : Except IoError Message :=
  attachInner (without m ignored) code now stamps.get false

/-! ## What is read -/

/-- The owners and stamps that the options of a code refer to. -/
def marks (m : Message) (code : UInt16) (received : Nat) : List (Name × Stamp) :=
  ((options m).filter fun o => o.1 == code).filterMap fun o => mark m received o.2

/-- The stamp of an owner that has exactly one. -/
def sole (l : List (Name × Stamp)) (n : Name) : Option Stamp :=
  match l.filter (fun e => SameKey e.1 n) with
  | [e] => some e.2
  | _ => none

/-- A second stamp of an owner leaves it without one that counts. The stamps of the owner are those
before and the new one, and only a single one counts. -/
theorem sole_snoc_same {l : List (Name × Stamp)} {e : Name × Stamp} {n : Name}
    (h : SameKey e.1 n) :
    sole (l ++ [e]) n = if ∃ x ∈ l, SameKey x.1 n then none else some e.2 := by
  rw [sole, List.filter_append, List.filter_singleton, decide_eq_true h]
  cases hf : l.filter (fun e => SameKey e.1 n) with
  | nil =>
    rw [if_neg]
    · rfl
    · rintro ⟨x, hx, hs⟩
      have := List.filter_eq_nil_iff.1 hf x hx
      exact this (decide_eq_true hs)
  | cons x xs =>
    have hx : x ∈ l.filter (fun e => SameKey e.1 n) := hf ▸ List.mem_cons_self
    rw [if_pos ⟨x, (List.mem_filter.1 hx).1, of_decide_eq_true (List.mem_filter.1 hx).2⟩]
    cases xs <;> rfl

/-- A stamp of another owner does not matter. -/
theorem sole_snoc_of_ne {l : List (Name × Stamp)} {e : Name × Stamp} {n : Name}
    (h : ¬ SameKey e.1 n) : sole (l ++ [e]) n = sole l n := by
  rw [sole, List.filter_append, List.filter_singleton, decide_eq_false h]
  simp [sole]

/-- An owner with a stamp is the owner of an entry. -/
theorem mem_of_sole {l : List (Name × Stamp)} {n : Name} {s : Stamp} (h : sole l n = some s) :
    ∃ e ∈ l, SameKey e.1 n ∧ e.2 = s := by
  rw [sole] at h
  split at h
  · next e he =>
    have hmem := List.mem_filter.1 (he ▸ List.mem_singleton_self e :
      e ∈ l.filter fun e => SameKey e.1 n)
    exact ⟨e, hmem.1, of_decide_eq_true hmem.2, Option.some.inj h⟩
  · cases h

/-- An owner without stamps has none that counts. -/
theorem sole_eq_none {l : List (Name × Stamp)} {n : Name} (h : ∀ e ∈ l, ¬ SameKey e.1 n) :
    sole l n = none := by
  rw [sole, List.filter_eq_nil_iff.2 fun e he => by simpa using h e he]

/-- Among owners that differ, each has its stamp. By induction on the owners: the one that is asked
for is found, and no other is the same. -/
theorem sole_of_distinct {l : List (Name × Stamp)}
    (h : l.Pairwise fun a b => ¬ SameKey a.1 b.1) {e : Name × Stamp} (he : e ∈ l) {n : Name}
    (hn : SameKey e.1 n) : sole l n = some e.2 := by
  have hone : l.filter (fun x => SameKey x.1 n) = [e] := by
    induction l with
    | nil => cases he
    | cons x xs ih =>
      obtain ⟨hx, hxs⟩ := List.pairwise_cons.1 h
      rcases List.mem_cons.1 he with rfl | he
      · rw [List.filter_cons_of_pos (by simpa using hn), List.filter_eq_nil_iff.2]
        intro y hy
        have : ¬ SameKey y.1 n := fun hs => hx y hy (hn.trans hs.symm)
        simpa using this
      · have : ¬ SameKey x.1 n := fun hs => hx e he (hs.trans hn.symm)
        rw [List.filter_cons_of_neg (by simpa using this), ih hxs he]
  rw [sole, hone]

/-- The loop has seen some entries. -/
structure Extraction.Tallied (s : Extraction) (l : List (Name × Stamp)) : Prop where
  seen : ∀ n, s.seen.contains n = true ↔ ∃ e ∈ l, SameKey e.1 n
  out : ∀ n, s.out.get n = sole l n

/-- Noting a stamp keeps the tally of the stamps so far. An owner that was seen before loses its
stamp, since two options about one owner contradict each other; a new one gets the stamp of the
option. -/
theorem Extraction.Tallied.note {s : Extraction} {l : List (Name × Stamp)} (h : s.Tallied l)
    (e : Name × Stamp) : (s.note e).Tallied (l ++ [e]) := by
  have hseen (n : Name) : (∃ x ∈ l ++ [e], SameKey x.1 n) ↔
      (∃ x ∈ l, SameKey x.1 n) ∨ SameKey e.1 n := by
    simp only [List.mem_append, List.mem_singleton, or_and_right, exists_or, exists_eq_left]
  unfold Extraction.note
  split
  · next hc =>
    obtain ⟨x, hx, hxe⟩ := (h.seen e.1).1 hc
    refine ⟨fun n => ?_, fun n => ?_⟩
    · rw [hseen, h.seen n]
      exact ⟨.inl, fun hn => hn.elim id fun hs => ⟨x, hx, hxe.trans hs⟩⟩
    · show (s.out.remove e.1).get n = _
      rw [OrdMap.get_remove]
      by_cases hs : SameKey e.1 n
      · rw [if_pos hs.symm, sole_snoc_same hs, if_pos ⟨x, hx, hxe.trans hs⟩]
      · rw [if_neg fun h' : SameKey n e.1 => hs h'.symm, sole_snoc_of_ne hs, h.out n]
  · next hc =>
    have hnew : ¬ ∃ x ∈ l, SameKey x.1 e.1 := fun hx => hc ((h.seen e.1).2 hx)
    refine ⟨fun n => ?_, fun n => ?_⟩
    · show (s.seen.insert e.1 ()).contains n = true ↔ _
      rw [hseen, ← h.seen n, OrdMap.contains_iff, OrdMap.contains_iff]
      by_cases hs : SameKey e.1 n
      · simp [OrdMap.get_insert, hs]
      · simp [OrdMap.get_insert, hs]
    · show (s.out.insert e.1 e.2).get n = _
      rw [OrdMap.get_insert]
      by_cases hs : SameKey e.1 n
      · rw [if_pos hs, sole_snoc_same hs, if_neg]
        rintro ⟨x, hx, hxn⟩
        exact hnew ⟨x, hx, hxn.trans hs.symm⟩
      · rw [if_neg hs, sole_snoc_of_ne hs, h.out n]

/-- The loop goes through options as long as there are not too many. By induction on the options:
each is counted, and noted if it is a mark. -/
theorem foldlM_option (m : Message) (received : Nat) {os : List (UInt16 × Bytes)} {s : Extraction}
    {l : List (Name × Stamp)} (hs : s.Tallied l) (hroom : s.count + os.length ≤ maxOptions) :
    ∃ s', os.foldlM (Extraction.option m received) s = .ok s' ∧
      s'.Tallied (l ++ os.filterMap fun o => mark m received o.2) := by
  induction os generalizing s l with
  | nil => exact ⟨s, rfl, by simpa using hs⟩
  | cons o os ih =>
    rw [List.length_cons] at hroom
    have hstep : Extraction.option m received s o = _ := if_neg (by omega)
    cases hm : mark m received o.2 with
    | none =>
      rw [hm] at hstep
      obtain ⟨s', hs', ht⟩ := ih (s := { s with count := s.count + 1 }) ⟨hs.seen, hs.out⟩
        (by show s.count + 1 + os.length ≤ _; omega)
      refine ⟨s', ?_, by simpa [hm] using ht⟩
      rw [List.foldlM_cons, hstep]
      exact hs'
    | some e =>
      rw [hm] at hstep
      have hcount : (Extraction.note { s with count := s.count + 1 } e).count = s.count + 1 := by
        unfold Extraction.note
        split <;> rfl
      obtain ⟨s', hs', ht⟩ := ih (s := Extraction.note { s with count := s.count + 1 } e)
        (Extraction.Tallied.note (s := { s with count := s.count + 1 }) ⟨hs.seen, hs.out⟩ e)
        (by rw [hcount]; omega)
      refine ⟨s', ?_, by simpa [hm] using ht⟩
      rw [List.foldlM_cons, hstep]
      exact hs'

/-- The options that are read are counted, and are no more than the limit. By induction on the
options: each turn that succeeds has counted one more. -/
theorem foldlM_option_length {m : Message} {received : Nat} {os : List (UInt16 × Bytes)}
    {s s' : Extraction} (h : os.foldlM (Extraction.option m received) s = .ok s')
    (hs : s.count ≤ maxOptions) : s.count + os.length ≤ maxOptions := by
  induction os generalizing s with
  | nil => exact hs
  | cons o os ih =>
    rw [List.foldlM_cons] at h
    obtain ⟨s₁, h₁, h⟩ := exceptBind_ok h
    unfold Extraction.option at h₁
    split at h₁
    · cases h₁
    · next hle =>
      have hcount : s₁.count = s.count + 1 := by
        cases h₁
        cases mark m received o.2 with
        | none => rfl
        | some e =>
          simp only [Option.elim_some, Extraction.note]
          split <;> rfl
      have := ih h (by omega)
      rw [List.length_cons]
      omega

/-- At first no stamps are tallied. -/
theorem tallied_empty : Extraction.Tallied ⟨.empty, .empty, 0⟩ [] :=
  ⟨fun n => by simp [OrdMap.contains_iff], fun n => rfl⟩

/-- When the stamps of a message are read. -/
def Readable (m : Message) (code : UInt16) : Prop :=
  code ≠ 0 ∧ m.records.length ≤ 512 ∧
    ((options m).filter fun o => o.1 == code).length ≤ maxOptions

/-- A readable message gives each owner the stamp that counts for it. -/
theorem extract_ok {m : Message} {code : UInt16} (received : Nat) (h : Readable m code) :
    ∃ stamps, extract m code received = .ok stamps ∧
      ∀ n, stamps.get n = sole (marks m code received) n := by
  obtain ⟨hcode, hlen, hcount⟩ := h
  obtain ⟨s, hs, ht⟩ := foldlM_option m received tallied_empty (by simpa using hcount)
  refine ⟨s.out, ?_, ht.out⟩
  rw [extract, if_neg (not_or.2 ⟨hcode, Nat.not_lt.2 hlen⟩), hs]
  rfl

/-- If stamps are extracted, the message was readable, and each owner has the stamp that counts for
it. -/
theorem extract_eq_ok {m : Message} {code : UInt16} {received : Nat} {stamps : OrdMap Name Stamp}
    (h : extract m code received = .ok stamps) :
    Readable m code ∧ ∀ n, stamps.get n = sole (marks m code received) n := by
  have hread : Readable m code := by
    unfold extract at h
    split at h
    · cases h
    · next hne =>
      obtain ⟨s, hs, -⟩ := exceptBind_ok h
      refine ⟨fun hc => hne (.inl hc), by omega, ?_⟩
      simpa using foldlM_option_length hs (Nat.zero_le _)
  obtain ⟨stamps', h', hget⟩ := extract_ok received hread
  rw [h'] at h
  cases h
  exact ⟨hread, hget⟩

/-! ## What is written -/

/-- An option that is written: the position and owner of the record it refers to, and the stamp. -/
structure Pick where
  index : Nat
  owner : Name
  stamp : Stamp

/-- The option for a pick. -/
def Pick.option (code : UInt16) (now : Nat) (e : Pick) : UInt16 × Bytes :=
  (code, e.stamp.encode (UInt16.ofNat e.index) now)

section
variable {m : Message} {code : UInt16} {now : Nat} {lookup : Name → Option Stamp} {mine : Bool}

/-- The loop has gone through some records, and has written these picks. -/
structure Attachment.Picked (m : Message) (code : UInt16) (now : Nat)
    (lookup : Name → Option Stamp) (s : Attachment) (l : List (Record × Nat)) (es : List Pick) :
    Prop where
  values : s.values = es.map (Pick.option code now)
  seen : ∀ n, s.seen.contains n = true ↔ ∃ e ∈ es, SameKey e.owner n
  distinct : es.Pairwise fun a b => ¬ SameKey a.owner b.owner
  sound : ∀ e ∈ es, ∃ r, (r, e.index) ∈ l ∧ applies m e.index r = true ∧ r.name = e.owner ∧
    lookup e.owner = some e.stamp
  complete : ∀ x ∈ l, applies m x.2 x.1 = true → ∀ st, lookup x.1.name = some st →
    ∃ e ∈ es, SameKey e.owner x.1.name
  bound : es.length ≤ maxOptions

/-- A record that needs no stamp, or whose owner has one already, is passed over. What was picked
stays, and the records that were read are one more. -/
theorem Attachment.Picked.skip {s : Attachment} {l : List (Record × Nat)} {es : List Pick}
    (h : s.Picked m code now lookup l es) {x : Record × Nat}
    (hx : applies m x.2 x.1 = true → ∀ st, lookup x.1.name = some st →
      ∃ e ∈ es, SameKey e.owner x.1.name) : s.Picked m code now lookup (l ++ [x]) es where
  values := h.values
  seen := h.seen
  distinct := h.distinct
  sound e he := by
    obtain ⟨r, hr, hrest⟩ := h.sound e he
    exact ⟨r, List.mem_append_left _ hr, hrest⟩
  complete y hy := by
    rcases List.mem_append.1 hy with hy | hy
    · exact h.complete y hy
    · rw [List.mem_singleton.1 hy]
      exact hx
  bound := h.bound

/-- A record of an owner that has no stamp yet is picked to carry it. The clauses of `Picked` are
shown for the longer list, and the owner is new in all of them. -/
theorem Attachment.Picked.take {s : Attachment} {l : List (Record × Nat)} {es : List Pick}
    (h : s.Picked m code now lookup l es) {x : Record × Nat} {st : Stamp}
    (hx : applies m x.2 x.1 = true) (hst : lookup x.1.name = some st)
    (hnew : s.seen.contains x.1.name = false) (hroom : es.length < maxOptions) :
    Attachment.Picked m code now lookup
      ⟨s.seen.insert x.1.name (), s.values ++ [(code, st.encode (UInt16.ofNat x.2) now)]⟩
      (l ++ [x]) (es ++ [⟨x.2, x.1.name, st⟩]) where
  values := by
    rw [List.map_append, h.values]
    rfl
  seen n := by
    have hs := h.seen n
    rw [OrdMap.contains_iff] at hs
    simp only [OrdMap.contains_iff, OrdMap.get_insert, List.mem_append, List.mem_singleton,
      or_and_right, exists_or, exists_eq_left]
    by_cases hn : SameKey x.1.name n
    · simp [hn]
    · simp [hn, hs]
  distinct := by
    refine List.pairwise_append.2 ⟨h.distinct, List.pairwise_singleton _ _, ?_⟩
    intro a ha b hb hab
    rw [List.mem_singleton.1 hb] at hab
    have := (h.seen x.1.name).2 ⟨a, ha, hab⟩
    rw [hnew] at this
    cases this
  sound e he := by
    rcases List.mem_append.1 he with he | he
    · obtain ⟨r, hr, hrest⟩ := h.sound e he
      exact ⟨r, List.mem_append_left _ hr, hrest⟩
    · rw [List.mem_singleton.1 he]
      exact ⟨x.1, List.mem_append_right _ (List.mem_singleton_self _), hx, rfl, hst⟩
  complete y hy happ st' hst' := by
    rcases List.mem_append.1 hy with hy | hy
    · obtain ⟨e, he, hs⟩ := h.complete y hy happ st' hst'
      exact ⟨e, List.mem_append_left _ he, hs⟩
    · rw [List.mem_singleton.1 hy]
      exact ⟨_, List.mem_append_right _ (List.mem_singleton_self _), rfl⟩
  bound := by
    rw [List.length_append]
    exact hroom

/-- One record keeps the description of what is written. A record that the stamps do not apply to,
or without a stamp, or whose owner was seen, is skipped; any other is picked. -/
theorem Attachment.Picked.record {s s' : Attachment} {l : List (Record × Nat)} {es : List Pick}
    (h : s.Picked m code now lookup l es) {x : Record × Nat}
    (hstep : Attachment.record m code now lookup mine s x = .ok s') :
    ∃ es', s'.Picked m code now lookup (l ++ [x]) es' := by
  unfold Attachment.record at hstep
  split at hstep
  · next happ =>
    cases hstep
    exact ⟨es, h.skip fun ht => absurd ht (by simp [happ])⟩
  · next happ =>
    split at hstep
    · next hnone =>
      cases hstep
      exact ⟨es, h.skip fun _ st hst => absurd (hnone.symm.trans hst) (by simp)⟩
    · next st hst =>
      split at hstep
      · cases hstep
      · split at hstep
        · next hseen =>
          cases hstep
          exact ⟨es, h.skip fun _ _ _ => (h.seen _).1 hseen⟩
        · next hseen =>
          split at hstep
          · cases hstep
          · next hroom =>
            cases hstep
            have hlen : s.values.length = es.length := by rw [h.values, List.length_map]
            have := h.bound
            exact ⟨_, h.take (by simpa using happ) hst (by simpa using hseen) (by omega)⟩

/-- So does every record of a message. By induction on the records, with the step of the loop for
each (`Picked.record`). -/
theorem Attachment.Picked.foldlM {xs : List (Record × Nat)} {s s' : Attachment}
    {l : List (Record × Nat)} {es : List Pick} (h : s.Picked m code now lookup l es)
    (hrun : xs.foldlM (Attachment.record m code now lookup mine) s = .ok s') :
    ∃ es', s'.Picked m code now lookup (l ++ xs) es' := by
  induction xs generalizing s l es with
  | nil =>
    cases hrun
    exact ⟨es, by simpa using h⟩
  | cons x xs ih =>
    rw [List.foldlM_cons] at hrun
    obtain ⟨s₁, h₁, hrun⟩ := exceptBind_ok hrun
    obtain ⟨es₁, hes⟩ := h.record h₁
    simpa using ih hes hrun

/-- At first nothing is picked. -/
theorem picked_nil : Attachment.Picked m code now lookup ⟨.empty, []⟩ [] [] where
  values := rfl
  seen n := by simp [OrdMap.contains_iff]
  distinct := .nil
  sound _ he := absurd he List.not_mem_nil
  complete _ hx := absurd hx List.not_mem_nil
  bound := Nat.zero_le _

/-- What the options for a message say. -/
theorem stampOptions_eq_ok {values : List (UInt16 × Bytes)}
    (h : stampOptions m code now lookup mine = .ok values) :
    ∃ s es, Attachment.Picked m code now lookup s m.records.zipIdx es ∧ values = s.values := by
  obtain ⟨s, hs, hv⟩ := exceptBind_ok h
  cases hv
  obtain ⟨es, hes⟩ := picked_nil.foldlM hs
  exact ⟨s, es, hes, rfl⟩

/-- The loop ends when there are few owners with a stamp. By induction on the records: the only
failure is a full list, and its picks are of different owners with a stamp, of which there are not
so many. -/
theorem foldlM_attach {xs : List (Record × Nat)} {s : Attachment} {l : List (Record × Nat)}
    {es : List Pick} (h : s.Picked m code now lookup l es)
    (hfew : ∀ es : List Pick, (es.Pairwise fun a b => ¬ SameKey a.owner b.owner) →
      (∀ e ∈ es, lookup e.owner = some e.stamp) → es.length ≤ maxOptions) :
    ∃ s', xs.foldlM (Attachment.record m code now lookup false) s = .ok s' := by
  induction xs generalizing s l es with
  | nil => exact ⟨s, rfl⟩
  | cons x xs ih =>
    have hstep : ∃ s₁, Attachment.record m code now lookup false s x = .ok s₁ := by
      unfold Attachment.record
      split
      · exact ⟨_, rfl⟩
      · next happ =>
        cases hst : lookup x.1.name with
        | none => exact ⟨_, rfl⟩
        | some st =>
          simp only [Bool.false_eq_true, false_and, if_false]
          split
          · exact ⟨_, rfl⟩
          · next hseen =>
            split
            · next hfull =>
              have hlen : s.values.length = es.length := by rw [h.values, List.length_map]
              have := hfew (es ++ [⟨x.2, x.1.name, st⟩]) ?_ ?_
              · rw [List.length_append, List.length_singleton] at this
                omega
              · refine List.pairwise_append.2 ⟨h.distinct, List.pairwise_singleton _ _, ?_⟩
                intro a ha b hb hab
                rw [List.mem_singleton.1 hb] at hab
                exact hseen ((h.seen _).2 ⟨a, ha, hab⟩)
              · intro e he
                rcases List.mem_append.1 he with he | he
                · obtain ⟨-, -, -, -, hlook⟩ := h.sound e he
                  exact hlook
                · rw [List.mem_singleton.1 he]
                  exact hst
            · exact ⟨_, rfl⟩
    obtain ⟨s₁, h₁⟩ := hstep
    obtain ⟨es₁, hes⟩ := h.record h₁
    obtain ⟨s', hs'⟩ := ih hes
    refine ⟨s', ?_⟩
    rw [List.foldlM_cons, h₁]
    exact hs'

end

/-! ## The OPT record -/

/-- Options can be replaced unless there is no record to carry them. -/
theorem replaceOptions_eq_none {code : UInt16} {values : List (UInt16 × Bytes)} {rs : List Record} :
    replaceOptions code values rs = none ↔ ∀ r ∈ rs, isOpt r = false := by
  induction rs with
  | nil => simp [replaceOptions]
  | cons r rs ih =>
    rw [List.forall_mem_cons, ← ih, replaceOptions, isOpt]
    split <;> simp_all

/-- The first OPT record has the new options, and nothing else changes. By induction on the
records. -/
theorem replaceOptions_eq_some {code : UInt16} {values : List (UInt16 × Bytes)}
    {rs rs' : List Record} (h : replaceOptions code values rs = some rs') :
    ∃ before r os after, rs = before ++ r :: after ∧ r.data = .opt os ∧
      (∀ x ∈ before, isOpt x = false) ∧
      rs' = before ++ { r with data := .opt (os.filter (fun o => o.1 != code) ++ values) } ::
      after := by
  induction rs generalizing rs' with
  | nil => cases h
  | cons r rs ih =>
    rw [replaceOptions] at h
    split at h
    · next os hos =>
      cases h
      exact ⟨[], r, os, rs, rfl, hos, fun x hx => absurd hx List.not_mem_nil, rfl⟩
    · next hno =>
      obtain ⟨rs₁, h₁, rfl⟩ := Option.map_eq_some_iff.1 h
      obtain ⟨before, r₁, os, after, rfl, hos, hbefore, rfl⟩ := ih h₁
      refine ⟨r :: before, r₁, os, after, rfl, hos, ?_, rfl⟩
      refine List.forall_mem_cons.2 ⟨?_, hbefore⟩
      rw [isOpt]
      split
      · next heq => exact absurd heq (hno _)
      · rfl

/-- Only an option record has options. -/
theorem optionsOf_eq_nil {r : Record} (h : isOpt r = false) : optionsOf r = [] := by
  rw [isOpt] at h
  rw [optionsOf]
  split at h
  · cases h
  · rfl

/-- Records without an option record have no options. -/
theorem flatMap_optionsOf_eq_nil {rs : List Record} (h : ∀ r ∈ rs, isOpt r = false) :
    rs.flatMap optionsOf = [] :=
  List.flatMap_eq_nil_iff.2 fun r hr => optionsOf_eq_nil (h r hr)

/-- What the parser checks of the OPT records of a message: only a record of their type holds
options, and there is at most one. -/
structure Edns (m : Message) : Prop where
  typed : ∀ r ∈ m.additional, isOpt r = true → r.kind = 41
  single : (m.additional.filter isOpt).length ≤ 1

/-- Replacing options neither adds nor removes option records. -/
theorem length_filter_isOpt_replace {code : UInt16} {values : List (UInt16 × Bytes)}
    {rs rs' : List Record} (h : replaceOptions code values rs = some rs') :
    (rs'.filter isOpt).length = (rs.filter isOpt).length := by
  obtain ⟨before, r, os, after, rfl, hos, -, rfl⟩ := replaceOptions_eq_some h
  have hr : isOpt r = true := by rw [isOpt, hos]
  simp only [List.filter_append, List.length_append, List.filter_cons_of_pos hr]
  rfl

/-- Replacing options keeps the type of option records. -/
theorem isOpt_replaceOptions {code : UInt16} {values : List (UInt16 × Bytes)}
    {rs rs' : List Record} (h : replaceOptions code values rs = some rs')
    (htyped : ∀ r ∈ rs, isOpt r = true → r.kind = 41) :
    ∀ r ∈ rs', isOpt r = true → r.kind = 41 := by
  obtain ⟨before, r, os, after, rfl, hos, -, rfl⟩ := replaceOptions_eq_some h
  intro x hx ho
  rcases List.mem_append.1 hx with hx | hx
  · exact htyped x (List.mem_append_left _ hx) ho
  · rcases List.mem_cons.1 hx with rfl | hx
    · exact htyped r (by simp) (by rw [isOpt, hos])
    · exact htyped x (by simp [hx]) ho

/-- The options after a replacement, for a list with one OPT record. The replacement changes the
first option record, which is the only one. -/
theorem flatMap_replaceOptions {code : UInt16} {values : List (UInt16 × Bytes)}
    {rs rs' : List Record} (h : replaceOptions code values rs = some rs')
    (hone : (rs.filter isOpt).length ≤ 1) :
    rs'.flatMap optionsOf = (rs.flatMap optionsOf).filter (fun o => o.1 != code) ++ values := by
  obtain ⟨before, r, os, after, rfl, hos, hbefore, rfl⟩ := replaceOptions_eq_some h
  have hr : isOpt r = true := by rw [isOpt, hos]
  have hafter : ∀ x ∈ after, isOpt x = false := by
    rw [List.filter_append, List.length_append, List.filter_cons_of_pos hr,
      List.length_cons] at hone
    have hnil : after.filter isOpt = [] := List.eq_nil_of_length_eq_zero (by omega)
    intro x hx
    simpa using List.filter_eq_nil_iff.1 hnil x hx
  have hold : optionsOf r = os := by rw [optionsOf, hos]
  simp only [List.flatMap_append, List.flatMap_cons, flatMap_optionsOf_eq_nil hbefore,
    flatMap_optionsOf_eq_nil hafter, hold, List.nil_append, List.append_nil]
  rfl

/-- What the loops read of a record, besides its options. -/
def head (r : Record) : Name × UInt16 × UInt16 := (r.name, r.kind, r.cls)

/-- Replacing options changes the data of a record only. -/
theorem map_head_replaceOptions {code : UInt16} {values : List (UInt16 × Bytes)}
    {rs rs' : List Record} (h : replaceOptions code values rs = some rs') :
    rs'.map head = rs.map head := by
  obtain ⟨before, r, os, after, rfl, -, -, rfl⟩ := replaceOptions_eq_some h
  simp only [List.map_append, List.map_cons]
  rfl

/-- The records that are not OPT records. -/
def ordinary (rs : List Record) : List Record := rs.filter fun r => r.kind != 41

/-- Replacing options leaves the other records as they are. -/
theorem ordinary_replaceOptions {code : UInt16} {values : List (UInt16 × Bytes)}
    {rs rs' : List Record} (h : replaceOptions code values rs = some rs')
    (htyped : ∀ r ∈ rs, isOpt r = true → r.kind = 41) : ordinary rs' = ordinary rs := by
  obtain ⟨before, r, os, after, rfl, hos, -, rfl⟩ := replaceOptions_eq_some h
  have hr : r.kind = 41 := htyped r (by simp) (by rw [isOpt, hos])
  simp [ordinary, hr]

/-! ## Reading back what was written -/

/-- Where the options of a message go. -/
inductive Placed (m : Message) (code : UInt16) (values : List (UInt16 × Bytes)) : Message → Prop
  | replaced {additional : List Record}
    (h : replaceOptions code values m.additional = some additional) :
    Placed m code values { m with additional := additional }
  | unneeded (h : ∀ r ∈ m.additional, isOpt r = false) (hv : values = []) : Placed m code values m
  | added (h : ∀ r ∈ m.additional, isOpt r = false) (hv : values ≠ [])
    (hroom : m.records.length < 512) :
    Placed m code values { m with additional := m.additional ++ [optRecord values] }

section
variable {m m' : Message} {code : UInt16} {now : Nat} {lookup : Name → Option Stamp} {mine : Bool}
  {values : List (UInt16 × Bytes)}

/-- What was done, when stamps were written: the options of the first OPT record were replaced, or
none was needed, or a record was added for them. -/
theorem attachInner_eq_ok (h : attachInner m code now lookup mine = .ok m') :
    code ≠ 0 ∧ m.records.length ≤ 512 ∧
      ∃ values, stampOptions m code now lookup mine = .ok values ∧ Placed m code values m' := by
  unfold attachInner at h
  split at h
  · cases h
  · next hne =>
    obtain ⟨hcode, hlen⟩ := not_or.1 hne
    obtain ⟨values, hvalues, h⟩ := exceptBind_ok h
    refine ⟨hcode, Nat.not_lt.1 hlen, values, hvalues, ?_⟩
    unfold place at h
    split at h
    · next additional hrep =>
      cases h
      exact .replaced hrep
    · next hrep =>
      have hno := replaceOptions_eq_none.1 hrep
      split at h
      · next hv =>
        cases h
        exact .unneeded hno hv
      · next hv =>
        split at h
        · cases h
        · cases h
          exact .added hno hv (by omega)

/-- Only the additional section changes. -/
theorem Placed.eq (h : Placed m code values m') : m' = { m with additional := m'.additional } := by
  cases h <;> rfl

/-- The records keep their positions. -/
theorem Placed.heads (h : Placed m code values m') :
    m.records.map head <+: m'.records.map head := by
  cases h with
  | replaced h =>
    simp only [Message.records, List.map_append, map_head_replaceOptions h]
    exact List.prefix_rfl
  | unneeded => exact List.prefix_rfl
  | added =>
    simp only [Message.records, List.map_append]
    rw [← List.append_assoc]
    exact List.prefix_append _ _

/-- Placing the stamps adds at most one record, and not beyond the limit. One case for each way to
place them; a record is added only where the source has tested the limit. -/
theorem Placed.length_le (h : Placed m code values m') (hlen : m.records.length ≤ 512) :
    m'.records.length ≤ 512 := by
  cases h with
  | replaced h =>
    have := congrArg List.length (map_head_replaceOptions h)
    simp only [List.length_map] at this
    simp only [Message.records, List.length_append, this] at hlen ⊢
    exact hlen
  | unneeded => exact hlen
  | added _ _ hroom =>
    simp only [Message.records, List.length_append, List.length_singleton] at hroom ⊢
    omega

/-- The message has the new options and its own of other codes. -/
theorem Placed.options (h : Placed m code values m')
    (hone : (m.additional.filter isOpt).length ≤ 1) :
    Mdns.options m' = (Mdns.options m).filter (fun o => o.1 != code) ++ values := by
  cases h with
  | replaced h => exact flatMap_replaceOptions h hone
  | unneeded h hv =>
    rw [hv, Mdns.options, flatMap_optionsOf_eq_nil h]
    rfl
  | added h =>
    simp [Mdns.options, flatMap_optionsOf_eq_nil h, optionsOf, optRecord]

/-- The options that are written are of the code. -/
theorem stampOptions_codes (h : stampOptions m code now lookup mine = .ok values) :
    ∀ o ∈ values, o.1 = code := by
  obtain ⟨s, es, hes, rfl⟩ := stampOptions_eq_ok h
  intro o ho
  rw [hes.values] at ho
  obtain ⟨e, -, rfl⟩ := List.mem_map.1 ho
  rfl

/-- Writing stamps leaves everything else as it is: the records that are no OPT records, and the
options of other codes. One case for each way of placing them. -/
theorem attachInner_frame (h : attachInner m code now lookup mine = .ok m') (hm : Edns m) :
    m' = { m with additional := m'.additional } ∧ ordinary m'.additional = ordinary m.additional ∧
      ((Mdns.options m').filter fun o => o.1 != code) =
        ((Mdns.options m).filter fun o => o.1 != code) ∧ Edns m' := by
  obtain ⟨-, -, values, hvalues, hplaced⟩ := attachInner_eq_ok h
  have hnew : (values.filter fun o => o.1 != code) = [] :=
    List.filter_eq_nil_iff.2 fun o ho => by simp [stampOptions_codes hvalues o ho]
  clear h
  refine ⟨hplaced.eq, ?_, ?_, ?_⟩
  · cases hplaced with
    | replaced hrep => exact ordinary_replaceOptions hrep hm.typed
    | unneeded => rfl
    | added => simp [ordinary, optRecord]
  · rw [hplaced.options hm.single, List.filter_append, hnew, List.filter_filter, List.append_nil]
    simp only [Bool.and_self]
  · cases hplaced with
    | replaced hrep =>
      exact ⟨isOpt_replaceOptions hrep hm.typed,
        (length_filter_isOpt_replace hrep).trans_le hm.single⟩
    | unneeded => exact hm
    | added hno =>
      refine ⟨fun r hr ho => ?_, ?_⟩
      · rcases List.mem_append.1 hr with hr | hr
        · exact hm.typed r hr ho
        · rw [List.mem_singleton.1 hr]
          rfl
      · rw [List.filter_append, List.filter_eq_nil_iff.2 fun r hr => by simp [hno r hr]]
        exact List.length_filter_le _ _

/-- A record of the message, at its position afterwards. The records keep their places, and only
options of one of them change. -/
theorem Placed.record (h : Placed m code values m') {i : Nat} {r : Record}
    (hr : m.records[i]? = some r) :
    ∃ r', m'.records[i]? = some r' ∧ r'.name = r.name ∧ applies m' i r' = applies m i r := by
  obtain ⟨t, ht⟩ := h.heads
  have hget : (m'.records.map head)[i]? = some (head r) := by
    rw [← ht, List.getElem?_append_left, List.getElem?_map, hr]
    · rfl
    · rw [List.length_map]
      exact (List.getElem?_eq_some_iff.1 hr).1
  rw [List.getElem?_map] at hget
  obtain ⟨r', hr', heq⟩ := Option.map_eq_some_iff.1 hget
  obtain ⟨hname, hkind, -⟩ : r'.name = r.name ∧ r'.kind = r.kind ∧ r'.cls = r.cls := by
    simpa [head] using heq
  refine ⟨r', hr', hname, ?_⟩
  rw [h.eq, applies, applies, hkind]

/-- The options that were written refer to the owners they were written for. An option holds the
index of a record, and the records keep their indices, since only an OPT record at the end is
new. -/
theorem Placed.marks {s : Attachment} {es : List Pick} (h : Placed m code s.values m')
    (hone : (m.additional.filter isOpt).length ≤ 1) (hlen : m.records.length ≤ 512)
    (hes : s.Picked m code now lookup m.records.zipIdx es) :
    ((Mdns.options m').filter fun o => o.1 == code) = s.values ∧
      Mdns.marks m' code now = es.map fun e => (e.owner, e.stamp.heard now) := by
  have hfilter : ((Mdns.options m').filter fun o => o.1 == code) = s.values := by
    have hold : ((Mdns.options m).filter fun o => o.1 == code && o.1 != code) = [] :=
      List.filter_eq_nil_iff.2 fun o _ => by simp
    have hnew : (s.values.filter fun o => o.1 == code) = s.values := by
      refine List.filter_eq_self.2 fun o ho => ?_
      rw [hes.values] at ho
      obtain ⟨e, -, rfl⟩ := List.mem_map.1 ho
      exact beq_self_eq_true code
    rw [h.options hone, List.filter_append, List.filter_filter, hold, hnew, List.nil_append]
  refine ⟨hfilter, ?_⟩
  rw [Mdns.marks, hfilter, hes.values, List.filterMap_map, ← List.filterMap_eq_map]
  refine List.filterMap_congr fun e he => ?_
  obtain ⟨r, hr, happ, hname, -⟩ := hes.sound e he
  have hget := List.mem_zipIdx_iff_getElem?.1 hr
  have hindex : (UInt16.ofNat e.index).toNat = e.index := by
    have := (List.getElem?_eq_some_iff.1 hget).1
    exact UInt16.toNat_ofNat_of_lt' (by simp only [UInt16.size]; omega)
  obtain ⟨r', hr', hname', happ'⟩ := h.record hget
  simp only [Function.comp_apply, Pick.option, mark, Stamp.decode_encode, Option.bind_some, hindex,
    hr', Option.filter_some, happ', happ, if_true, Option.map_some, hname', hname]

/-- Whether a stamp may refer to a record of an owner. -/
def Concerns (m : Message) (n : Name) : Prop :=
  ∃ x ∈ m.records.zipIdx, applies m x.2 x.1 = true ∧ SameKey x.1.name n

/-- The stamps that were written are read back, to the second. What was picked is the list of
options in the message (`Placed.marks`), one for each owner, and reading tallies one stamp for each
of them. -/
theorem attachInner_extract (h : attachInner m code now lookup mine = .ok m')
    (hone : (m.additional.filter isOpt).length ≤ 1)
    (hlookup : ∀ {a b}, SameKey a b → lookup a = lookup b) :
    ∃ stamps, extract m' code now = .ok stamps ∧ ∀ n,
      (Concerns m n → stamps.get n = (lookup n).map fun s => s.heard now) ∧
      (¬ Concerns m n → stamps.get n = none) := by
  obtain ⟨hcode, hlen, values, hvalues, hplaced⟩ := attachInner_eq_ok h
  obtain ⟨s, es, hes, rfl⟩ := stampOptions_eq_ok hvalues
  obtain ⟨hfilter, hmarks⟩ := hplaced.marks hone hlen hes
  have hread : Readable m' code := by
    refine ⟨hcode, hplaced.length_le hlen, ?_⟩
    rw [hfilter, hes.values, List.length_map]
    exact hes.bound
  obtain ⟨stamps, hstamps, hget⟩ := extract_ok now hread
  have hdistinct : (es.map fun e => (e.owner, e.stamp.heard now)).Pairwise
      fun a b => ¬ SameKey a.1 b.1 := List.pairwise_map.2 hes.distinct
  refine ⟨stamps, hstamps, fun n => ⟨?_, ?_⟩⟩
  · rintro ⟨x, hx, happ, hn⟩
    rw [hget, hmarks, ← hlookup hn]
    cases hst : lookup x.1.name with
    | none =>
      refine sole_eq_none fun e he hs => ?_
      obtain ⟨p, hp, rfl⟩ := List.mem_map.1 he
      obtain ⟨-, -, -, -, hlook⟩ := hes.sound p hp
      rw [hlookup (hs.trans hn.symm), hst] at hlook
      cases hlook
    | some st =>
      obtain ⟨e, he, hs⟩ := hes.complete x hx happ st hst
      obtain ⟨-, -, -, -, hlook⟩ := hes.sound e he
      rw [hlookup hs, hst] at hlook
      rw [sole_of_distinct hdistinct (List.mem_map_of_mem he) (hs.trans hn)]
      cases hlook
      rfl
  · intro hn
    rw [hget, hmarks]
    refine sole_eq_none fun e he hs => hn ?_
    obtain ⟨p, hp, rfl⟩ := List.mem_map.1 he
    obtain ⟨r, hr, happ, hname, -⟩ := hes.sound p hp
    exact ⟨(r, p.index), hr, happ, by rw [show r.name = p.owner from hname]; exact hs⟩

end

/-! ## Filtering -/

/-- A message concerns a name if one of its records is about it, apart from what a query knows
already. -/
theorem concerns_iff {m : Message} {n : Name} : Concerns m n ↔
    ∃ r, r.kind ≠ 41 ∧ SameKey r.name n ∧
      (r ∈ m.authority ++ m.additional ∨ (m.flags &&& 0x8000 ≠ 0 ∧ r ∈ m.answers)) := by
  have hrecords : m.records = m.answers ++ (m.authority ++ m.additional) :=
    List.append_assoc _ _ _
  constructor
  · rintro ⟨⟨r, i⟩, hx, happ, hn⟩
    have hget := List.mem_zipIdx_iff_getElem?.1 hx
    simp only [applies, Bool.and_eq_true, bne_iff_ne, Bool.or_eq_true, decide_eq_true_eq] at happ
    refine ⟨r, happ.1, hn, ?_⟩
    rw [hrecords] at hget
    by_cases hi : m.answers.length ≤ i
    · rw [List.getElem?_append_right hi] at hget
      exact .inl (List.mem_of_getElem? hget)
    · rw [List.getElem?_append_left (by omega)] at hget
      exact .inr ⟨happ.2.resolve_right hi, List.mem_of_getElem? hget⟩
  · rintro ⟨r, hk, hn, hr | ⟨hflags, hr⟩⟩
    · obtain ⟨i, hi⟩ := List.getElem?_of_mem hr
      refine ⟨(r, m.answers.length + i), List.mem_zipIdx_iff_getElem?.2 ?_, ?_, hn⟩
      · rw [hrecords, List.getElem?_append_right (Nat.le_add_right _ _), Nat.add_sub_cancel_left]
        exact hi
      · simp [applies, hk]
    · obtain ⟨i, hi⟩ := List.getElem?_of_mem hr
      refine ⟨(r, i), List.mem_zipIdx_iff_getElem?.2 ?_, ?_, hn⟩
      · rw [hrecords, List.getElem?_append_left (List.getElem?_eq_some_iff.1 hi).1]
        exact hi
      · simp [applies, hk, hflags]

/-- Whether a name is ignored does not depend on its letter case. -/
theorem contains_congr {ignored : OrdMap Name Unit} {a b : Name} (h : SameKey a b) :
    ignored.contains a = ignored.contains b := by
  rw [OrdMap.contains, OrdMap.contains, OrdMap.get_congr _ h]

/-- A message without the records of ignored names concerns the other names. What a message concerns
is told from its records (`concerns_iff`), and those of the ignored names are left out. -/
theorem concerns_without {m : Message} {ignored : OrdMap Name Unit} {n : Name} :
    Concerns (without m ignored) n ↔ Concerns m n ∧ ignored.contains n = false := by
  rw [concerns_iff, concerns_iff]
  constructor
  · rintro ⟨r, hk, hn, hr⟩
    simp only [without, List.mem_append, List.mem_filter, Bool.or_eq_true, beq_iff_eq, hk,
      false_or, Bool.not_eq_true', contains_congr hn] at hr
    rcases hr with (hr | hr) | ⟨hflags, hr⟩
    · exact ⟨⟨r, hk, hn, .inl (List.mem_append_left _ hr.1)⟩, hr.2⟩
    · exact ⟨⟨r, hk, hn, .inl (List.mem_append_right _ hr.1)⟩, hr.2⟩
    · exact ⟨⟨r, hk, hn, .inr ⟨hflags, hr.1⟩⟩, hr.2⟩
  · rintro ⟨⟨r, hk, hn, hr⟩, hi⟩
    refine ⟨r, hk, hn, ?_⟩
    simp only [without, List.mem_append, List.mem_filter, Bool.or_eq_true, beq_iff_eq, hk,
      false_or, Bool.not_eq_true', contains_congr hn, hi, and_true]
    simpa only [List.mem_append] using hr

/-- Sent on at once, a stamp that was read stays what it is. The age that is computed is the one
that was read, since no time has passed. -/
theorem heard_of_decode {b : Bytes} {now : Nat} {i : UInt16} {s : Stamp}
    (h : Stamp.decode b now = some (i, s)) : s.heard now = s := by
  unfold Stamp.decode at h
  split at h
  · cases h
  · cases h
    have hage : Stamp.age ⟨UInt32.ofNat (ofBe ((b.drop 2).take 4)),
        (now : Int) - (min (ofBe (b.drop 6)) maxAge : Nat) * 1000⟩ now =
        min (ofBe (b.drop 6)) maxAge := by
      simp only [Stamp.age, satSub128, maxAge]
      omega
    rw [Stamp.heard, hage]

/-- A mark is the stamp of a name that the message concerns. -/
theorem mark_eq_some {m : Message} {now : Nat} {b : Bytes} {e : Name × Stamp}
    (h : mark m now b = some e) : Concerns m e.1 ∧ e.2.heard now = e.2 := by
  obtain ⟨⟨i, s⟩, hs, he⟩ := Option.bind_eq_some_iff.1 h
  obtain ⟨r, hr, rfl⟩ := Option.map_eq_some_iff.1 he
  obtain ⟨hget, happ⟩ := Option.filter_eq_some_iff.1 hr
  exact ⟨⟨(r, i.toNat), List.mem_zipIdx_iff_getElem?.2 hget, happ, rfl⟩, heard_of_decode hs⟩

section
variable {m : Message} {code : UInt16} {now : Nat} {stamps : OrdMap Name Stamp}

/-- A stamp that was read is one of an owner in the message. -/
theorem extract_concerns (h : extract m code now = .ok stamps) {n : Name} {s : Stamp}
    (hs : stamps.get n = some s) : Concerns m n ∧ s.heard now = s := by
  rw [(extract_eq_ok h).2 n] at hs
  obtain ⟨e, he, hn, rfl⟩ := mem_of_sole hs
  obtain ⟨o, -, ho⟩ := List.mem_filterMap.1 he
  obtain ⟨⟨x, hx, happ, hxe⟩, hheard⟩ := mark_eq_some ho
  exact ⟨⟨x, hx, happ, hxe.trans hn⟩, hheard⟩

/-- A message has few stamps. The owners that were picked differ, and each has one of the marks of
the message, of which there are few. -/
theorem extract_few (h : extract m code now = .ok stamps) (es : List Pick)
    (hes : es.Pairwise fun a b => ¬ SameKey a.owner b.owner)
    (hst : ∀ e ∈ es, stamps.get e.owner = some e.stamp) : es.length ≤ maxOptions := by
  obtain ⟨⟨-, -, hcount⟩, hget⟩ := extract_eq_ok h
  have hnodup : (es.map fun e => OrdKey.code e.owner).Nodup := List.pairwise_map.2 hes
  have hsub : (es.map fun e => OrdKey.code e.owner) ⊆
      (marks m code now).map fun e => OrdKey.code e.1 := by
    intro c hc
    obtain ⟨e, he, rfl⟩ := List.mem_map.1 hc
    have := hst e he
    rw [hget] at this
    obtain ⟨x, hx, hn, -⟩ := mem_of_sole this
    exact List.mem_map.2 ⟨x, hx, hn⟩
  calc es.length = (es.map fun e => OrdKey.code e.owner).length := by rw [List.length_map]
    _ ≤ ((marks m code now).map fun e => OrdKey.code e.1).length := hnodup.length_le_of_subset hsub
    _ ≤ ((options m).filter fun o => o.1 == code).length := by
      rw [List.length_map]
      exact List.length_filterMap_le _ _
    _ ≤ maxOptions := hcount

end

/-- Taking records out adds none. -/
theorem length_without_le (m : Message) (ignored : OrdMap Name Unit) :
    (without m ignored).records.length ≤ m.records.length := by
  simp only [without, Message.records, List.length_append]
  have h₁ := List.length_filter_le (fun r => !ignored.contains r.name) m.answers
  have h₂ := List.length_filter_le (fun r => !ignored.contains r.name) m.authority
  have h₃ := List.length_filter_le (fun r => r.kind == 41 || !ignored.contains r.name) m.additional
  omega

/-- OPT records stay. -/
theorem filter_isOpt_without {m : Message} (hm : Edns m) (ignored : OrdMap Name Unit) :
    (without m ignored).additional.filter isOpt = m.additional.filter isOpt := by
  simp only [without, List.filter_filter]
  refine List.filter_congr fun r hr => ?_
  cases ho : isOpt r with
  | false => rfl
  | true => simp [hm.typed r hr ho]

/-- The options of a message are those of its option records. -/
theorem options_eq_filter (m : Message) :
    options m = (m.additional.filter isOpt).flatMap optionsOf := by
  rw [options]
  induction m.additional with
  | nil => rfl
  | cons r rs ih =>
    cases ho : isOpt r with
    | false =>
      rw [List.filter_cons_of_neg (by simp [ho]), List.flatMap_cons, optionsOf_eq_nil ho, ih,
        List.nil_append]
    | true => rw [List.filter_cons_of_pos ho, List.flatMap_cons, List.flatMap_cons, ih]

/-! ## Filters in a row -/

/-- Options are replaced in the first option record. By induction on the records before it. -/
theorem replaceOptions_append {code : UInt16} (values : List (UInt16 × Bytes))
    {before after : List Record} {r : Record} {os : List (UInt16 × Bytes)}
    (hbefore : ∀ x ∈ before, isOpt x = false) (hos : r.data = .opt os) :
    replaceOptions code values (before ++ r :: after) = some
      (before ++ { r with data := .opt (os.filter (fun o => o.1 != code) ++ values) } ::
       after) := by
  induction before with
  | nil => rw [List.nil_append, List.nil_append, replaceOptions, hos]
  | cons x xs ih =>
    obtain ⟨hx, hxs⟩ := List.forall_mem_cons.1 hbefore
    rw [List.cons_append, replaceOptions]
    split
    · next heq =>
      rw [isOpt, heq] at hx
      cases hx
    · rw [ih hxs]
      rfl

/-- A later replacement hides an earlier one. -/
theorem replaceOptions_replaceOptions {code : UInt16} {values : List (UInt16 × Bytes)}
    {rs rs' : List Record} (h : replaceOptions code values rs = some rs')
    (hv : ∀ o ∈ values, o.1 = code) (values' : List (UInt16 × Bytes)) :
    replaceOptions code values' rs' = replaceOptions code values' rs := by
  obtain ⟨before, r, os, after, rfl, hos, hbefore, rfl⟩ := replaceOptions_eq_some h
  have hnone : (values.filter fun o => o.1 != code) = [] :=
    List.filter_eq_nil_iff.2 fun o ho => by simp [hv o ho]
  rw [replaceOptions_append values' hbefore hos, replaceOptions_append values' hbefore rfl]
  simp only [List.filter_append, hnone, List.append_nil, List.filter_filter, Bool.and_self]

/-- Replacing options and taking other records out may be done in either order. -/
theorem replaceOptions_filter {code : UInt16} {values : List (UInt16 × Bytes)}
    {rs rs' : List Record} (h : replaceOptions code values rs = some rs') {p : Record → Bool}
    (hp : ∀ r ∈ rs, isOpt r = true → p r = true)
    (hdata : ∀ r d, p { r with data := d } = p r) :
    replaceOptions code values (rs.filter p) = some (rs'.filter p) := by
  obtain ⟨before, r, os, after, rfl, hos, hbefore, rfl⟩ := replaceOptions_eq_some h
  have hr : p r = true := hp r (by simp) (by rw [isOpt, hos])
  simp only [List.filter_append, List.filter_cons_of_pos hr,
    List.filter_cons_of_pos (p := p) ((hdata r _).trans hr)]
  exact replaceOptions_append values (fun x hx => hbefore x (List.mem_of_mem_filter hx)) hos

section
variable {z : Message} {code : UInt16} {now : Nat} {f g : Name → Option Stamp} {mine : Bool}

/-- The loop reads the heads of the records only, which are their owner, type and class. By
induction on both lists. -/
theorem foldlM_attach_congr {z' : Message} (hflags : z'.flags = z.flags)
    (hanswers : z'.answers.length = z.answers.length) {xs ys : List (Record × Nat)}
    (hxy : (ys.map fun y => (head y.1, y.2)) = xs.map fun x => (head x.1, x.2))
    (hfg : ∀ x ∈ xs, applies z x.2 x.1 = true → f x.1.name = g x.1.name) (s : Attachment) :
    ys.foldlM (Attachment.record z' code now f mine) s =
      xs.foldlM (Attachment.record z code now g mine) s := by
  induction xs generalizing ys s with
  | nil => rw [List.map_eq_nil_iff.1 hxy]; rfl
  | cons x xs ih =>
    cases ys with
    | nil => simp at hxy
    | cons y ys =>
      simp only [List.map_cons, List.cons.injEq, Prod.mk.injEq] at hxy
      obtain ⟨⟨hhead, hindex⟩, hxy⟩ := hxy
      obtain ⟨hname, hkind, hcls⟩ : y.1.name = x.1.name ∧ y.1.kind = x.1.kind ∧
        y.1.cls = x.1.cls := by
        simpa [head] using hhead
      have happ : applies z' y.2 y.1 = applies z x.2 x.1 := by
        rw [applies, applies, hflags, hanswers, hindex, hkind]
      have hstep : Attachment.record z' code now f mine s y =
          Attachment.record z code now g mine s x := by
        unfold Attachment.record
        rw [happ, hflags, hcls, hindex, hname]
        cases ha : applies z x.2 x.1 with
        | false => rfl
        | true => rw [hfg x List.mem_cons_self ha]
      rw [List.foldlM_cons, List.foldlM_cons, hstep]
      refine congrArg _ (funext fun s₁ => ?_)
      exact ih hxy (fun x hx => hfg x (List.mem_cons_of_mem _ hx)) s₁

/-- The stamps depend on the flags, on the heads of the records and on what is known of the names
that need one. -/
theorem stampOptions_congr {z' : Message} (hflags : z'.flags = z.flags)
    (hanswers : z'.answers.length = z.answers.length)
    (hheads : z'.records.map head = z.records.map head)
    (hfg : ∀ x ∈ z.records.zipIdx, applies z x.2 x.1 = true → f x.1.name = g x.1.name) :
    stampOptions z' code now f mine = stampOptions z code now g mine := by
  have hxy : (z'.records.zipIdx.map fun y => (head y.1, y.2)) =
      z.records.zipIdx.map fun x => (head x.1, x.2) := by
    have := congrArg List.zipIdx hheads
    rw [List.zipIdx_map, List.zipIdx_map] at this
    exact this
  rw [stampOptions, stampOptions, foldlM_attach_congr hflags hanswers hxy hfg]

/-- Options that were written before make no difference, nor do stamps of other owners: the records
have the same heads, and the options of that code are replaced. -/
theorem attachInner_replaced {values : List (UInt16 × Bytes)} {additional : List Record}
    (h : replaceOptions code values z.additional = some additional)
    (hv : ∀ o ∈ values, o.1 = code)
    (hfg : ∀ x ∈ z.records.zipIdx, applies z x.2 x.1 = true → f x.1.name = g x.1.name) :
    attachInner { z with additional := additional } code now f mine =
      attachInner z code now g mine := by
  have hheads : ({ z with additional := additional } : Message).records.map head =
      z.records.map head := by
    simp only [Message.records, List.map_append, map_head_replaceOptions h]
  have hlen :
      ({ z with additional := additional } : Message).records.length = z.records.length := by
    have := congrArg List.length hheads
    simpa only [List.length_map] using this
  have hplace (w : List (UInt16 × Bytes)) :
      place { z with additional := additional } code w = place z code w := by
    obtain ⟨before, r, os, after, heq, hos, hbefore, -⟩ := replaceOptions_eq_some h
    have hsome : ∃ rs, replaceOptions code w z.additional = some rs :=
      ⟨_, heq ▸ replaceOptions_append w hbefore hos⟩
    obtain ⟨rs, hrs⟩ := hsome
    simp only [place, replaceOptions_replaceOptions h hv, hrs]
  have hoptions : stampOptions { z with additional := additional } code now f mine =
      stampOptions z code now g mine := stampOptions_congr rfl rfl hheads hfg
  simp only [attachInner, hlen, hplace, hoptions]

/-- So does the message that they are put into. -/
theorem attachInner_congr
    (hfg : ∀ x ∈ z.records.zipIdx, applies z x.2 x.1 = true → f x.1.name = g x.1.name) :
    attachInner z code now f mine = attachInner z code now g mine := by
  unfold attachInner
  rw [stampOptions_congr rfl rfl rfl hfg]

end

section
variable {z z' : Message} {code : UInt16} {now : Nat} {f : Name → Option Stamp} {mine : Bool}

/-- An OPT record at the end has no stamp of its own. The loop over the records passes it over, so
the stamps are those of the other records. -/
theorem stampOptions_snoc {values values' : List (UInt16 × Bytes)}
    (h : stampOptions z code now f mine = .ok values) :
    stampOptions { z with additional := z.additional ++ [optRecord values'] } code now f mine =
      .ok values := by
  obtain ⟨s, hs, hvalues⟩ := exceptBind_ok h
  have hrecords : ({ z with additional := z.additional ++ [optRecord values'] } : Message).records =
      z.records ++ [optRecord values'] := (List.append_assoc _ _ _).symm
  have hfold : z.records.zipIdx.foldlM
      (Attachment.record { z with additional := z.additional ++ [optRecord values'] }
       code now f mine)
      ⟨.empty, []⟩ = .ok s :=
    (foldlM_attach_congr (z := z) (g := f) rfl rfl rfl (fun _ _ _ => rfl) _).trans hs
  rw [stampOptions, hrecords, List.zipIdx_append, List.foldlM_append, hfold]
  exact hvalues

/-- Stamps that were written before are written again as they are. The options with the code are
replaced by the same ones, in the record where they stand. -/
theorem attachInner_again (h : attachInner z code now f mine = .ok z') :
    attachInner z' code now f mine = .ok z' := by
  obtain ⟨hcode, hlen, values, hvalues, hplaced⟩ := attachInner_eq_ok h
  have hcodes := stampOptions_codes hvalues
  have hlen' := hplaced.length_le hlen
  cases hplaced with
  | replaced hrep => rw [attachInner_replaced hrep hcodes fun _ _ _ => rfl, h]
  | unneeded => exact h
  | added hno =>
    have hnone : (values.filter fun o => o.1 != code) = [] :=
      List.filter_eq_nil_iff.2 fun o ho => by simp [hcodes o ho]
    rw [attachInner, if_neg (not_or.2 ⟨hcode, Nat.not_lt.2 hlen'⟩), stampOptions_snoc hvalues]
    show place _ code values = _
    rw [place, replaceOptions_append values hno rfl, hnone, List.nil_append]
    rfl

end

/-- Two filters in a row are one. -/
theorem without_without {m : Message} {a b c : OrdMap Name Unit}
    (hc : ∀ n, c.contains n = (a.contains n || b.contains n)) :
    without (without m a) b = without m c := by
  have h (r : Record) : (!b.contains r.name && !a.contains r.name) = !c.contains r.name := by
    rw [hc, Bool.not_or, Bool.and_comm]
  have h' (r : Record) :
      ((r.kind == 41 || !b.contains r.name) && (r.kind == 41 || !a.contains r.name)) =
      (r.kind == 41 || !c.contains r.name) := by
    rw [← h, Bool.or_and_distrib_left]
  simp only [without, List.filter_filter, h, h']

section
variable {m : Message} {code : UInt16} {now : Nat} {stamps : OrdMap Name Stamp}

/-- Taking records of ignored names out leaves at most one option record. -/
theorem Edns.without (hm : Edns m) (ignored : OrdMap Name Unit) :
    Edns (Mdns.without m ignored) where
  typed r hr := hm.typed r (List.mem_of_mem_filter hr)
  single := by
    rw [filter_isOpt_without hm]
    exact hm.single

/-- A message whose stamps are read can be filtered, and needs no new OPT record. The stamps come
from at most as many options as may be written (`extract_few`), so that the loop that picks the
records does not fail. -/
theorem filtered_ok (hm : Edns m) (h : extract m code now = .ok stamps)
    (ignored : OrdMap Name Unit) :
    ∃ m₂ values, filtered m ignored stamps now code = .ok m₂ ∧ (∀ o ∈ values, o.1 = code) ∧
      ((∃ additional, replaceOptions code values (without m ignored).additional = some additional ∧
          m₂ = { without m ignored with additional := additional }) ∨
        m₂ = without m ignored) := by
  obtain ⟨⟨hcode, hlen, -⟩, hget⟩ := extract_eq_ok h
  have hlen' : (without m ignored).records.length ≤ 512 := (length_without_le m ignored).trans hlen
  obtain ⟨s, hs⟩ : ∃ s, (without m ignored).records.zipIdx.foldlM
      (Attachment.record (without m ignored) code now stamps.get false) ⟨.empty, []⟩ = .ok s :=
    foldlM_attach picked_nil (extract_few h)
  obtain ⟨es, hes⟩ := picked_nil.foldlM hs
  have hrun : filtered m ignored stamps now code = place (without m ignored) code s.values := by
    rw [filtered, attachInner, if_neg (not_or.2 ⟨hcode, Nat.not_lt.2 hlen'⟩), stampOptions, hs]
    rfl
  have hcodes : ∀ o ∈ s.values, o.1 = code := by
    intro o ho
    rw [hes.values] at ho
    obtain ⟨e, -, rfl⟩ := List.mem_map.1 ho
    rfl
  cases hrep : replaceOptions code s.values (without m ignored).additional with
  | some additional =>
    exact ⟨_, s.values, by rw [hrun, place, hrep], hcodes, .inl ⟨additional, hrep, rfl⟩⟩
  | none =>
    have hno : m.additional.filter isOpt = [] := by
      rw [← filter_isOpt_without hm ignored, List.filter_eq_nil_iff]
      intro r hr
      simpa using replaceOptions_eq_none.1 hrep r hr
    have hnone (n : Name) : stamps.get n = none := by
      rw [hget, marks, options_eq_filter, hno]
      rfl
    have hnil : es = [] := by
      refine List.eq_nil_iff_forall_not_mem.2 fun e he => ?_
      obtain ⟨-, -, -, -, hlook⟩ := hes.sound e he
      rw [hnone] at hlook
      cases hlook
    have hvalues : s.values = [] := by rw [hes.values, hnil, List.map_nil]
    exact ⟨_, s.values, by rw [hrun, place, hrep]; exact if_pos hvalues, hcodes, .inr rfl⟩

/-- The stamps that are left are those of the owners that are not ignored. An owner with a stamp
that is not ignored still has a record that its stamp applies to. -/
theorem extract_filtered (hm : Edns m) (h : extract m code now = .ok stamps)
    {ignored : OrdMap Name Unit} {m₂ : Message}
    (h₂ : filtered m ignored stamps now code = .ok m₂) :
    ∃ kept, extract m₂ code now = .ok kept ∧
      ∀ n, kept.get n = if ignored.contains n then none else stamps.get n := by
  obtain ⟨kept, hkept, hget⟩ := attachInner_extract h₂ (hm.without ignored).single
    fun hab => stamps.get_congr hab
  refine ⟨kept, hkept, fun n => ?_⟩
  obtain ⟨hin, hout⟩ := hget n
  cases hi : ignored.contains n with
  | true =>
    refine hout fun hc => ?_
    rw [(concerns_without.1 hc).2] at hi
    cases hi
  | false =>
    show kept.get n = stamps.get n
    cases hst : stamps.get n with
    | none =>
      by_cases hc : Concerns (without m ignored) n
      · rw [hin hc, hst]
        rfl
      · exact hout hc
    | some st =>
      obtain ⟨hconcerns, hheard⟩ := extract_concerns h hst
      rw [hin (concerns_without.2 ⟨hconcerns, hi⟩), hst, Option.map_some, hheard]

/-- A filter after a filter is the filter of both. The stamps of the filtered message are those that
are not ignored (`extract_filtered`), so that both sides pick the same records, and the options of
the first filter are replaced by those of the second. -/
theorem filtered_filtered (hm : Edns m) (h : extract m code now = .ok stamps)
    {a b c : OrdMap Name Unit} (hc : ∀ n, c.contains n = (a.contains n || b.contains n))
    {ma : Message} {sa : OrdMap Name Stamp} (ha : filtered m a stamps now code = .ok ma)
    (hsa : extract ma code now = .ok sa) :
    filtered ma b sa now code = filtered m c stamps now code := by
  obtain ⟨kept, hkept, hget⟩ := extract_filtered hm h ha
  rw [hsa] at hkept
  cases hkept
  have hagree : ∀ x ∈ (without m c).records.zipIdx, applies (without m c) x.2 x.1 = true →
      sa.get x.1.name = stamps.get x.1.name := by
    intro x hx happ
    have hi := (concerns_without.1 ⟨x, hx, happ, rfl⟩).2
    rw [hc, Bool.or_eq_false_iff] at hi
    rw [hget, hi.1]
    rfl
  obtain ⟨m₂, values, h₂, hcodes, hplaced⟩ := filtered_ok hm h a
  rw [ha] at h₂
  cases h₂
  rcases hplaced with ⟨additional, hrep, rfl⟩ | rfl
  · have hrep' := replaceOptions_filter hrep (p := fun r => r.kind == 41 || !b.contains r.name)
      (fun r hr ho => by simp [(hm.without a).typed r hr ho]) fun r d => rfl
    have heq : without { without m a with additional := additional } b =
        { without m c with
          additional := additional.filter fun r => r.kind == 41 || !b.contains r.name } := by
      rw [← without_without hc]
      rfl
    have hz : (without m c).additional =
        (without m a).additional.filter fun r => r.kind == 41 || !b.contains r.name := by
      rw [← without_without hc]
      rfl
    rw [filtered, filtered, heq]
    exact attachInner_replaced (hz ▸ hrep') hcodes hagree
  · rw [filtered, filtered, without_without hc]
    exact attachInner_congr hagree

end

/-- Filtering a message takes out the records of the ignored owners and their stamps, and nothing
else; filters add up. -/
theorem filtered_stamps {m : Message} (hm : Edns m) {code : UInt16} {now : Nat}
    {stamps : OrdMap Name Stamp} (h : extract m code now = .ok stamps) :
    (∀ ignored : OrdMap Name Unit, ∃ m₂ kept, filtered m ignored stamps now code = .ok m₂ ∧
      ordinary m₂.answers = (ordinary m.answers).filter (fun r => !ignored.contains r.name) ∧
      ordinary m₂.authority = (ordinary m.authority).filter (fun r => !ignored.contains r.name) ∧
      ordinary m₂.additional = (ordinary m.additional).filter (fun r => !ignored.contains r.name) ∧
      ((options m₂).filter fun o => o.1 != code) = ((options m).filter fun o => o.1 != code) ∧
      extract m₂ code now = .ok kept ∧
      kept.Alike (stamps.retain fun n _ => !ignored.contains n) ∧
      filtered m₂ ignored kept now code = .ok m₂) ∧
    ∀ (a b c : OrdMap Name Unit), (∀ n, c.contains n = (a.contains n || b.contains n)) →
      ∀ ma sa, filtered m a stamps now code = .ok ma → extract ma code now = .ok sa →
        filtered ma b sa now code = filtered m c stamps now code := by
  refine ⟨fun ignored => ?_, fun a b c hc ma sa ha hsa => filtered_filtered hm h hc ha hsa⟩
  obtain ⟨m₂, -, h₂, -⟩ := filtered_ok hm h ignored
  obtain ⟨kept, hkept, hget⟩ := extract_filtered hm h h₂
  obtain ⟨heq, hadditional, hoptions, -⟩ := attachInner_frame h₂ (hm.without ignored)
  have hcontains : ∀ {a b : Name}, SameKey a b → (!ignored.contains a) = !ignored.contains b :=
    fun hab => by rw [contains_congr hab]
  refine ⟨m₂, kept, h₂, ?_, ?_, ?_, ?_, hkept, OrdMap.alike_of_get fun n => ?_, ?_⟩
  · rw [heq]
    simp only [without, ordinary, List.filter_filter, Bool.and_comm]
  · rw [heq]
    simp only [without, ordinary, List.filter_filter, Bool.and_comm]
  · rw [hadditional]
    simp only [without, ordinary, List.filter_filter]
    refine List.filter_congr fun r _ => ?_
    simp only [bne]
    cases r.kind == 41 <;> cases ignored.contains r.name <;> rfl
  · rw [hoptions, options_eq_filter, filter_isOpt_without hm, ← options_eq_filter]
  · rw [hget, OrdMap.get_retain fun _ hab => hcontains hab]
    cases ignored.contains n with
    | true => cases stamps.get n <;> rfl
    | false => cases stamps.get n <;> rfl
  · rw [filtered_filtered hm h (fun n => (Bool.or_self _).symm) h₂ hkept, h₂]

/-- The name of a host. -/
def stampedHost : Name := ⟨[ascii "host", ascii "local"], by decide⟩

/-- The name of a printer. -/
def stampedPrinter : Name := ⟨[ascii "printer", ascii "local"], by decide⟩

/-- A response with the addresses of a host and a printer, and the stamps of both. -/
def stampedResponse : Message :=
  { Message.new 0 0x8400 with
    answers := [⟨stampedHost, 1, 1, 120, .a (Ipv4Addr.new 192 0 2 1)⟩,
      ⟨stampedHost, 1, 1, 120, .a (Ipv4Addr.new 192 0 2 2)⟩,
      ⟨stampedPrinter, 1, 1, 120, .a (Ipv4Addr.new 192 0 2 3)⟩]
    additional := [optRecord [(65002, Stamp.encode ⟨7, 1000⟩ 1 5000), (10, [1]),
      (65002, Stamp.encode ⟨9, 2000⟩ 2 5000)]] }

/-- Without the printer, the host's records and stamp are left, and without the host then, as much
as without both. -/
theorem filtered_stamps_host : ∃ stamps m₂ kept,
    extract stampedResponse 65002 5000 = .ok stamps ∧
      stamps.get stampedHost = some ⟨7, 1000⟩ ∧ stamps.get stampedPrinter = some ⟨9, 2000⟩ ∧
      filtered stampedResponse (OrdMap.empty.insert stampedPrinter ()) stamps 5000 65002 = .ok m₂ ∧
      ordinary m₂.answers = stampedResponse.answers.take 2 ∧
      extract m₂ 65002 5000 = .ok kept ∧
      kept.get stampedHost = some ⟨7, 1000⟩ ∧ kept.get stampedPrinter = none ∧
      filtered m₂ (OrdMap.empty.insert stampedHost ()) kept 5000 65002 =
        filtered stampedResponse ((OrdMap.empty.insert stampedPrinter ()).insert stampedHost ())
          stamps 5000 65002 := by
  have hm : Edns stampedResponse := ⟨by simp [stampedResponse, optRecord], by decide⟩
  obtain ⟨stamps, h, hget⟩ := extract_ok (m := stampedResponse) 5000
    (show Readable _ 65002 from ⟨by decide, by decide, by decide⟩)
  have hhost : stamps.get stampedHost = some ⟨7, 1000⟩ := by
    rw [hget]
    decide +kernel
  have hprinter : stamps.get stampedPrinter = some ⟨9, 2000⟩ := by
    rw [hget]
    decide +kernel
  obtain ⟨m₂, kept, h₂, hanswers, -, -, -, hkept, halike, -⟩ :=
    (filtered_stamps hm h).1 (OrdMap.empty.insert stampedPrinter ())
  have hcontains : ∀ {a b : Name}, SameKey a b →
      (!(OrdMap.empty.insert stampedPrinter ()).contains a) =
        !(OrdMap.empty.insert stampedPrinter ()).contains b :=
    fun hab => by rw [contains_congr hab]
  refine ⟨stamps, m₂, kept, h, hhost, hprinter, h₂, ?_, hkept, ?_, ?_, ?_⟩
  · rw [hanswers]
    rfl
  · rw [halike.get rfl, OrdMap.get_retain fun _ hab => hcontains hab, hhost]
    decide +kernel
  · rw [halike.get rfl, OrdMap.get_retain fun _ hab => hcontains hab, hprinter]
    decide +kernel
  · refine (filtered_stamps hm h).2 _ _ _ (fun n => ?_) m₂ kept h₂ hkept
    simp only [OrdMap.contains, OrdMap.get_insert, OrdMap.get_empty]
    split
    · simp
    · split <;> simp

end SnacMachine.Mdns
