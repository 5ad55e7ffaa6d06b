import SnacMachine.Lib.Bytes
import SnacMachine.Net.Address

/-!
# One file for two owners

The embedding of `persist/journal.rs`: two parts share one store, and each save of a part writes
both. What the parts are for is `Contents`, a pair of byte strings that a save replaces one of; on
every run the parts hold it (`Inner.Holds`), and so does the stored image when it is opened again.
The digest is any function to 20 octets.
-/

namespace SnacMachine.Persist

/-- Reference: `MAX_JOURNAL_BYTES` (`persist.rs:257`). -/
def maxJournalBytes : Nat := 8 * 1024 * 1024

/-- Reference: `MAGIC` (`persist/journal.rs:5`). -/
def magic : Bytes := ascii "SNAC-RUNTIME-1" ++ [0]

/-- Reference: `invalid` (`persist/journal.rs:88`). -/
def invalid : IoError := ⟨.invalidData, "invalid or excessive combined journal"⟩

/-- Which of the two parts. -/
inductive Index
  | first | second
  deriving DecidableEq

/-- The other part. -/
def Index.other : Index → Index
  | .first => .second
  | .second => .first

/-- The contents of the two parts, where an empty one is absent. -/
structure Parts where
  first : Option Bytes
  second : Option Bytes

namespace Parts

def get (p : Parts) : Index → Option Bytes
  | .first => p.first
  | .second => p.second

def set (p : Parts) (i : Index) (v : Option Bytes) : Parts :=
  match i with
  | .first => { p with first := v }
  | .second => { p with second := v }

/-- The octets of a part. -/
def octets (p : Parts) (i : Index) : Bytes := (p.get i).getD []

end Parts

/-- A part that is there if it is not empty. -/
def present (b : Bytes) : Option Bytes := if b = [] then none else some b

/-- SHA-1, as far as the journal relies on it. -/
abbrev Digest := Bytes → Octets 20

section Journal

variable (digest : Digest)

/-- The parts of a combined image. Reference: `persist/journal.rs:23`. -/
def combined (b : Bytes) : Except IoError Parts :=
  if b.length < magic.length + 8 + 20 then .error invalid
  else
    let end_ := b.length - 20
    if (digest (b.take end_)).1 ≠ b.drop end_ then .error invalid
    else
      let offset := magic.length
      let a := ofBe ((b.drop offset).take 4)
      let c := ofBe ((b.drop (offset + 4)).take 4)
      let start := offset + 8
      if a > maxJournalBytes ∨ c > maxJournalBytes ∨ start + a + c ≠ end_ then .error invalid
      else .ok ⟨present ((b.drop start).take a), present ((b.drop (start + a)).take c)⟩

/-- Whether an image is of the time before there were two parts. Reference:
`persist/journal.rs:43`. -/
def legacy (b : Bytes) : Bool :=
  (ascii "SNAC-SNAPSHOT-").isPrefixOf b || (ascii "SNAC" ++ [1]).isPrefixOf b

/-- Reference: `Journal::open` (`persist/journal.rs:16`), on what the store holds. -/
def open_ : Option Bytes → Except IoError Parts
  | none => .ok ⟨none, none⟩
  | some b =>
    if b.length > maxJournalBytes then .error invalid
    else if magic.isPrefixOf b then combined digest b
    else if legacy b then .ok ⟨some b, none⟩
    else .error invalid

/-- The image of two parts. Reference: `persist/journal.rs:76`. -/
def image (first second : Bytes) : Bytes :=
  let b := magic ++ toBe 4 first.length ++ toBe 4 second.length ++ first ++ second
  b ++ (digest b).1

/-- The store and the parts. Of the store it is known what it accepted last. Reference: `Inner`
(`persist/journal.rs:6`). -/
structure Inner where
  stored : Option Bytes
  parts : Parts

/-- Reference: `Part::load` (`persist/journal.rs:61`). -/
def load (s : Inner) (i : Index) : Option Bytes := s.parts.get i

/-- One save of a part, with the answer that the store gives if it is asked. -/
structure Save where
  index : Index
  bytes : Bytes
  answer : Except IoError Unit

/-- What became of a save: its result and what was handed to the store. -/
structure Outcome where
  result : Except IoError Unit
  handed : Option Bytes

/-- The image that a save writes. Reference: `persist/journal.rs:70`. -/
def newImage (s : Inner) (o : Save) : Bytes :=
  match o.index with
  | .first => image digest o.bytes (s.parts.octets .second)
  | .second => image digest (s.parts.octets .first) o.bytes

/-- Whether a save is refused. Reference: `persist/journal.rs:67`. -/
def refused (s : Inner) (o : Save) : Bool :=
  o.bytes.length + (s.parts.octets o.index.other).length > maxJournalBytes - magic.length - 28

/-- Reference: `Part::save` (`persist/journal.rs:64`). -/
def save (s : Inner) (o : Save) : Outcome × Inner :=
  if refused s o then (⟨.error invalid, none⟩, s)
  else
    let b := newImage digest s o
    match o.answer with
    | .error e => (⟨.error e, some b⟩, s)
    | .ok () => (⟨.ok (), some b⟩, ⟨some b, s.parts.set o.index (present o.bytes)⟩)

/-- Saves, one after another, with what became of each. -/
def run (s : Inner) : List Save → List (Save × Outcome) × Inner
  | [] => ([], s)
  | o :: os =>
    let (outcome, s) := save digest s o
    let (es, s) := run s os
    ((o, outcome) :: es, s)

/-! ## What is stored can be opened -/

/-- Contents that are not empty are present. -/
theorem present_ne {b : Bytes} (h : b ≠ []) : present b = some b := if_neg h

/-- Empty contents and no contents are the same. -/
@[simp] theorem getD_present (b : Bytes) : (present b).getD [] = b := by
  unfold present
  split
  · next h => exact h.symm
  · rfl

/-- The magic takes 15 octets. -/
theorem length_magic : magic.length = 15 := rfl

/-- The image takes 43 octets besides the parts. -/
theorem length_image (first second : Bytes) :
    (image digest first second).length = first.length + second.length + 43 := by
  simp only [image, List.length_append, length_toBe, length_magic, (digest _).2]
  omega

/-- The length of a part is read as it was written. -/
theorem ofBe_length {n : Nat} (h : n ≤ maxJournalBytes) : ofBe (toBe 4 n) = n :=
  ofBe_toBe (Nat.lt_of_le_of_lt h (by decide))

/-- A part of a byte string, given by where it begins and how long it is. -/
theorem slice {a b c w : Bytes} {n k : Nat} (h : w = a ++ (b ++ c)) (ha : a.length = n)
    (hb : b.length = k) : (w.drop n).take k = b := by
  rw [h, List.drop_left' ha, List.take_left' hb]

/-- An image within the limit is opened as what it was made of. The magic number stands in front,
the digest at the end is that of the octets before it, and the lengths in the header tell where the
parts are. -/
theorem open_image {first second : Bytes}
    (h : first.length + second.length ≤ maxJournalBytes - magic.length - 28) :
    open_ digest (some (image digest first second)) = .ok ⟨present first, present second⟩ := by
  have hmax : maxJournalBytes = 8388608 := rfl
  have hlen := length_image digest first second
  rw [length_magic, hmax] at h
  have hbound : ¬ (image digest first second).length > maxJournalBytes := by omega
  have hmagic : magic.isPrefixOf (image digest first second) = true := by
    simp only [image, List.append_assoc]
    exact List.isPrefixOf_iff_prefix.2 (List.prefix_append _ _)
  simp only [open_, if_neg hbound, hmagic, if_true]
  generalize hbody : magic ++ toBe 4 first.length ++ toBe 4 second.length ++ first ++ second = body
  have himage : image digest first second = body ++ (digest body).1 := by rw [image, hbody]
  have hbodylen : body.length = first.length + second.length + 23 := by
    rw [himage, List.length_append, (digest body).2] at hlen
    omega
  have hend : (body ++ (digest body).1).length - 20 = body.length := by
    rw [List.length_append, (digest body).2, Nat.add_sub_cancel]
  have ha : ((body ++ (digest body).1).drop 15).take 4 = toBe 4 first.length := by
    refine slice (a := magic) (c := toBe 4 second.length ++ first ++ second ++ (digest body).1)
      ?_ rfl (length_toBe 4 _)
    rw [← hbody]
    simp only [List.append_assoc]
  have hc : ((body ++ (digest body).1).drop 19).take 4 = toBe 4 second.length := by
    refine slice (a := magic ++ toBe 4 first.length) (c := first ++ second ++ (digest body).1)
      ?_ ?_ (length_toBe 4 _)
    · rw [← hbody]
      simp only [List.append_assoc]
    · rw [List.length_append, length_toBe, length_magic]
  have hfirst : ((body ++ (digest body).1).drop 23).take first.length = first := by
    refine slice (a := magic ++ toBe 4 first.length ++ toBe 4 second.length)
      (c := second ++ (digest body).1) ?_ ?_ rfl
    · rw [← hbody]
      simp only [List.append_assoc]
    · simp only [List.length_append, length_toBe, length_magic]
  have hsecond :
      ((body ++ (digest body).1).drop (23 + first.length)).take second.length = second := by
    refine slice (a := magic ++ toBe 4 first.length ++ toBe 4 second.length ++ first)
      (c := (digest body).1) ?_ ?_ rfl
    · rw [← hbody, List.append_assoc]
    · simp only [List.length_append, length_toBe, length_magic]
  rw [himage, combined, if_neg (by rw [← himage, hlen, length_magic]; omega)]
  simp only [hend, List.take_left, List.drop_left, length_magic, ha, hc, ne_eq, not_true, if_false]
  rw [ofBe_length (by omega), ofBe_length (by omega), if_neg (by omega), hfirst, hsecond]

/-! ## Runs -/

variable {digest}

/-- What is opened has no empty part: a combined image gives its parts through `present`, and older
contents are taken as the first part only if they begin like one. -/
theorem open_present {contents : Option Bytes} {parts : Parts}
    (h : open_ digest contents = .ok parts) (i : Index) :
    parts.get i = present (parts.octets i) := by
  have hpart {v : Option Bytes} (hv : v ≠ some []) : v = present (v.getD []) := by
    cases v with
    | none => rfl
    | some b => exact (present_ne fun hb => hv (by rw [hb])).symm
  have hpresent (b : Bytes) : present b ≠ some [] := by
    unfold present
    split
    · exact nofun
    · next hb => exact fun h => hb (Option.some.inj h)
  refine hpart ?_
  cases contents with
  | none =>
    cases h
    cases i <;> exact nofun
  | some b =>
    simp only [open_] at h
    split at h
    · cases h
    · split at h
      · unfold combined at h
        split at h
        · cases h
        · dsimp only at h
          split at h
          · cases h
          · split at h
            · cases h
            · cases h
              cases i <;> exact hpresent _
      · split at h
        · next hlegacy =>
          cases h
          cases i with
          | first =>
            intro hb
            rw [Option.some.inj hb] at hlegacy
            exact absurd hlegacy (by decide)
          | second => exact nofun
        · cases h

/-- What the store accepted last is the image of the parts. -/
def Inner.Holds (digest : Digest) (s : Inner) : Prop := open_ digest s.stored = .ok s.parts

variable {s : Inner} {o : Save}

/-- What a save can do: it is refused, or the store does not accept it, or it takes effect. In the
first two cases the journal stays as it was. -/
theorem save_cases (digest : Digest) (s : Inner) (o : Save) :
    save digest s o = (⟨.error invalid, none⟩, s) ∨
    (refused s o = false ∧ ∃ e, save digest s o = (⟨.error e, some (newImage digest s o)⟩, s)) ∨
    (refused s o = false ∧ save digest s o = (⟨.ok (), some (newImage digest s o)⟩,
      ⟨some (newImage digest s o), s.parts.set o.index (present o.bytes)⟩)) := by
  unfold save
  cases hr : refused s o with
  | true => exact .inl rfl
  | false =>
    cases o.answer with
    | error e => exact .inr (.inl ⟨rfl, e, rfl⟩)
    | ok u => exact .inr (.inr ⟨rfl, rfl⟩)

/-- The image that is to be saved is as long as the new part and the other one need. -/
theorem length_newImage : (newImage digest s o).length =
    o.bytes.length + (s.parts.octets o.index.other).length + 43 := by
  unfold newImage
  cases o.index with
  | first => exact length_image digest _ _
  | second => rw [length_image digest, Nat.add_comm o.bytes.length, Index.other]

/-- The image that a save writes opens as the parts that the save leaves. One case for the part that
is saved; the others are read as they were. -/
theorem open_newImage (hs : s.Holds digest) (hr : refused s o = false) :
    open_ digest (some (newImage digest s o)) = .ok (s.parts.set o.index (present o.bytes)) := by
  have hother (i : Index) : present (s.parts.octets i) = s.parts.get i := (open_present hs i).symm
  have hle := Nat.not_lt.1 (of_decide_eq_false hr)
  unfold newImage
  cases hi : o.index with
  | first =>
    simp only [hi, Index.other] at hle
    dsimp only
    rw [open_image digest hle, hother]
    rfl
  | second =>
    simp only [hi, Index.other, Nat.add_comm o.bytes.length] at hle
    dsimp only
    rw [open_image digest hle, hother]
    rfl

/-- A failed save changes nothing. -/
theorem save_error {e : IoError} (h : (save digest s o).1.result = .error e) :
    (save digest s o).2 = s := by
  rcases save_cases digest s o with hrun | ⟨-, e', hrun⟩ | ⟨-, hrun⟩
  · rw [hrun]
  · rw [hrun]
  · rw [hrun] at h
    cases h

/-- Saving keeps what the journal holds. -/
theorem save_holds (hs : s.Holds digest) : (save digest s o).2.Holds digest := by
  rcases save_cases digest s o with hrun | ⟨-, e', hrun⟩ | ⟨hr, hrun⟩
  · rw [hrun]
    exact hs
  · rw [hrun]
    exact hs
  · rw [hrun]
    exact open_newImage hs hr

/-- What a save hands to the store is within the limit. The save is refused otherwise, before the
store is called. -/
theorem save_handed {b : Bytes} (h : (save digest s o).1.handed = some b) :
    b.length ≤ maxJournalBytes := by
  have hmax : maxJournalBytes = 8388608 := rfl
  have hfits (hr : refused s o = false) : (newImage digest s o).length ≤ maxJournalBytes := by
    have hle := Nat.not_lt.1 (of_decide_eq_false hr)
    rw [length_magic] at hle
    rw [length_newImage]
    omega
  rcases save_cases digest s o with hrun | ⟨hr, e', hrun⟩ | ⟨hr, hrun⟩
  · rw [hrun] at h
    cases h
  · rw [hrun] at h
    cases h
    exact hfits hr
  · rw [hrun] at h
    cases h
    exact hfits hr

/-- The octets of a part after some saves: those of its last successful save. -/
def lastSaved (i : Index) (opened : Bytes) (es : List (Save × Outcome)) : Bytes :=
  es.foldl (fun b e => match e.2.result with
    | .ok () => if e.1.index = i then e.1.bytes else b
    | .error _ => b) opened

/-- After a save its part has the new contents, and the other part what it had. -/
theorem octets_save (digest : Digest) (s : Inner) (o : Save) (i : Index) :
    (save digest s o).2.parts.octets i = (match (save digest s o).1.result with
      | .ok () => if o.index = i then o.bytes else s.parts.octets i
      | .error _ => s.parts.octets i) := by
  rcases save_cases digest s o with hrun | ⟨-, e', hrun⟩ | ⟨-, hrun⟩
  · rw [hrun]
  · rw [hrun]
  · rw [hrun]
    cases o.index <;> cases i <;> simp [Parts.octets, Parts.set, Parts.get]

/-- On every run the store can be opened again, the parts are what was saved last, and what is
handed to the store is within the limit. -/
theorem run_spec (os : List Save) {s : Inner} (hs : s.Holds digest) :
    (run digest s os).2.Holds digest ∧
    (∀ i, (run digest s os).2.parts.octets i = lastSaved i (s.parts.octets i) (run digest s os).1) ∧
    ∀ e ∈ (run digest s os).1, ∀ b, e.2.handed = some b → b.length ≤ maxJournalBytes := by
  induction os generalizing s with
  | nil => exact ⟨hs, fun _ => rfl, nofun⟩
  | cons o os ih =>
    obtain ⟨hholds, hoctets, hhanded⟩ := ih (save_holds (o := o) hs)
    refine ⟨hholds, fun i => ?_, fun e he b hb => ?_⟩
    · refine (hoctets i).trans ?_
      rw [octets_save]
      rfl
    · rcases List.mem_cons.1 he with rfl | he
      · exact save_handed hb
      · exact hhanded e he b hb

/-- On every run of saves on the two parts of an opened journal, whatever the store answers: a part
reads back as its last successful save, a save that fails changes nothing, what is handed to the
store is within the limit, and what the store accepted last opens as both parts.
Reference: `Journal::open` (`persist/journal.rs:16`), `Part::save` (`persist/journal.rs:64`). -/
theorem journal_isolates {contents : Option Bytes} {parts : Parts}
    (opened : open_ digest contents = .ok parts) (os : List Save) :
    (∀ i, load (run digest ⟨contents, parts⟩ os).2 i =
      present (lastSaved i (parts.octets i) (run digest ⟨contents, parts⟩ os).1)) ∧
    (∀ o e, (save digest (run digest ⟨contents, parts⟩ os).2 o).1.result = .error e →
      (save digest (run digest ⟨contents, parts⟩ os).2 o).2 =
        (run digest ⟨contents, parts⟩ os).2) ∧
    (∀ e ∈ (run digest ⟨contents, parts⟩ os).1, ∀ b, e.2.handed = some b →
      b.length ≤ maxJournalBytes) ∧
    open_ digest (run digest ⟨contents, parts⟩ os).2.stored =
      .ok (run digest ⟨contents, parts⟩ os).2.parts := by
  obtain ⟨hholds, hoctets, hhanded⟩ := run_spec os (s := ⟨contents, parts⟩) opened
  refine ⟨fun i => ?_, fun o e h => save_error h, hhanded, hholds⟩
  rw [← hoctets i]
  exact open_present hholds i

/-- An image of the old kind, of which the second part is saved. -/
def sampleImage : Bytes := ascii "SNAC" ++ [1]

def sampleDigest : Digest := fun _ => ⟨List.replicate 20 0, rfl⟩

def sampleSaves : List Save := [⟨.second, [7], .ok ()⟩, ⟨.first, [], .error invalid⟩]

/-- The theorem applied to a journal of the old format that is opened and saved: a failed save
leaves the first part, and the second part is what was saved last. -/
theorem journal_isolates_legacy :
    open_ sampleDigest (some sampleImage) = .ok ⟨some sampleImage, none⟩ ∧
    load (run sampleDigest ⟨some sampleImage, some sampleImage, none⟩ sampleSaves).2 .first =
      some sampleImage ∧
    load (run sampleDigest ⟨some sampleImage, some sampleImage, none⟩ sampleSaves).2 .second =
      some [7] := by
  have opened : open_ sampleDigest (some sampleImage) = .ok ⟨some sampleImage, none⟩ := rfl
  have h := (journal_isolates opened sampleSaves).1
  exact ⟨opened, (h .first).trans (by decide +kernel), (h .second).trans (by decide +kernel)⟩

end Journal

end SnacMachine.Persist
