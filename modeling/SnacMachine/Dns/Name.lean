import SnacMachine.Lib.Bytes

/-!
# Domain names

A name is a list of labels of 1 to 63 octets whose wire form fits 255 octets (`LabelsOk`), carried
as a field, so that a name that the program's constructor refuses cannot be built. Names keep the
letter case of their labels, but every comparison of the program reads the lower-cased wire form
`Name.canonical`: equality (`==`), the order of map keys (`OrdKey`) and hashing.
-/

namespace SnacMachine.Dns

/-- What `Name::from_labels` accepts. Reference: `dns/wire.rs:23`. -/
def LabelsOk (labels : List Bytes) : Prop :=
  (∀ l ∈ labels, l ≠ [] ∧ l.length ≤ 63) ∧ 1 + (labels.map fun l => l.length + 1).sum ≤ 255

instance (labels : List Bytes) : Decidable (LabelsOk labels) :=
  inferInstanceAs (Decidable (_ ∧ _))

/-- A domain name, with its labels as they were given. Reference: `Name` (`dns/wire.rs:18`), whose
second field is the cached `canonical`. -/
structure Name where
  /-- The labels, leftmost first. -/
  labels : List Bytes
  /-- The bounds that the constructor checks. -/
  ok : LabelsOk labels

namespace Name

/-- The checked constructor. Reference: `Name::from_labels` (`dns/wire.rs:23`). -/
def fromLabels (labels : List Bytes) : Option Name :=
  if h : LabelsOk labels then some ⟨labels, h⟩ else none

/-- The root name. Reference: `Name::root` (`dns/wire.rs:37`). -/
def root : Name := ⟨[], by decide⟩

/-- The uncompressed wire form of a list of labels. -/
def labelsWire (labels : List Bytes) : Bytes :=
  labels.flatMap (fun l => UInt8.ofNat l.length :: l) ++ [0]

/-- The uncompressed wire form. Reference: `Name::write` (`dns/wire.rs:49`). -/
def wire (n : Name) : Bytes := labelsWire n.labels

/-- The lower-cased wire form. Reference: `Name::canonical` (`dns/wire.rs:46`). -/
def canonical (n : Name) : Bytes := labelsWire (n.labels.map fun l => l.map lowercase)

/-- Names are equal when their lower-cased forms are. Reference: `PartialEq for Name`
(`dns/wire.rs:57`). -/
instance : BEq Name := ⟨fun a b => a.canonical == b.canonical⟩

/-- Names are ordered by their lower-cased forms. Reference: `Ord for Name` (`dns/wire.rs:68`). -/
instance : OrdKey Name := ⟨OrdKey.Code Bytes, inferInstance, fun n => OrdKey.code n.canonical⟩

/-- A name is built from its own labels. -/
@[simp] theorem fromLabels_labels (n : Name) : fromLabels n.labels = some n := by
  simp [fromLabels, n.ok]

/-- A name that is built from labels has these labels. -/
theorem fromLabels_eq_some {labels : List Bytes} {n : Name} (h : fromLabels labels = some n) :
    n.labels = labels := by
  unfold fromLabels at h
  split at h
  · cases h; rfl
  · cases h

/-- Names are equal if their canonical forms are, that is, up to letter case. -/
theorem beq_iff {a b : Name} : (a == b) = true ↔ a.canonical = b.canonical := by
  show (a.canonical == b.canonical) = true ↔ _
  exact beq_iff_eq

/-- The equality of names is the sameness of keys of the tables by name. -/
theorem beq_iff_sameKey {a b : Name} : (a == b) = true ↔ SameKey a b := by
  rw [beq_iff]
  exact (sameKey_iff (K := Bytes)).symm

instance : EquivBEq Name where
  rfl := beq_iff.2 rfl
  symm h := beq_iff.2 (beq_iff.1 h).symm
  trans h h' := beq_iff.2 ((beq_iff.1 h).trans (beq_iff.1 h'))

/-- On the wire each label takes an octet more than it has, and the root takes one. -/
@[simp] theorem length_labelsWire (labels : List Bytes) :
    (labelsWire labels).length = 1 + (labels.map fun l => l.length + 1).sum := by
  induction labels with
  | nil => rfl
  | cons l ls ih =>
    simp only [labelsWire, List.flatMap_cons, List.length_append, List.length_cons, List.map_cons,
      List.sum_cons] at ih ⊢
    omega

/-- The first label on the wire: its length, its octets, the other labels. -/
theorem labelsWire_cons (l : Bytes) (ls : List Bytes) :
    labelsWire (l :: ls) = UInt8.ofNat l.length :: l ++ labelsWire ls := by
  simp [labelsWire]

/-- The root is a zero octet. -/
@[simp] theorem labelsWire_nil : labelsWire [] = [0] := rfl

/-- A name takes at most 255 octets. -/
theorem length_wire_le (n : Name) : n.wire.length ≤ 255 := by
  rw [wire, length_labelsWire]; exact n.ok.2

/-- A name takes at least the octet of the root. -/
theorem length_wire_pos (n : Name) : 0 < n.wire.length := by
  rw [wire, length_labelsWire]; omega

/-- A name has fewer labels than octets on the wire. -/
theorem length_labels_lt (n : Name) : n.labels.length < n.wire.length := by
  rw [wire, length_labelsWire]
  have : n.labels.length ≤ (n.labels.map fun l => l.length + 1).sum := by
    induction n.labels with
    | nil => simp
    | cons l ls ih => simp only [List.length_cons, List.map_cons, List.sum_cons]; omega
  omega

/-- The canonical form is as long as the name. -/
@[simp] theorem length_canonical (n : Name) : n.canonical.length = n.wire.length := by
  simp [canonical, wire, Function.comp_def]

/-- Lower-casing keeps the bounds of the constructor. -/
theorem labelsOk_lowercase {labels : List Bytes} (h : LabelsOk labels) :
    LabelsOk (labels.map fun l => l.map lowercase) := by
  refine ⟨fun l hl => ?_, ?_⟩
  · obtain ⟨l', hl', rfl⟩ := List.mem_map.1 hl
    simpa using h.1 l' hl'
  · simpa [Function.comp_def] using h.2

/-- The name with its letters in lower case. -/
def lower (n : Name) : Name := ⟨n.labels.map fun l => l.map lowercase, labelsOk_lowercase n.ok⟩

/-- Lower-casing a name leaves its canonical form. -/
@[simp] theorem canonical_lower (n : Name) : n.lower.canonical = n.canonical := by
  simp [canonical, lower, Function.comp_def]

/-- Lower-casing a name leaves the number of its labels. -/
@[simp] theorem length_labels_lower (n : Name) : n.lower.labels.length = n.labels.length := by
  simp [lower]

/-- A name and its lower-cased form are the same key. -/
theorem sameKey_lower (n : Name) : SameKey n.lower n := by
  rw [← beq_iff_sameKey, beq_iff, canonical_lower]

end Name

end SnacMachine.Dns
