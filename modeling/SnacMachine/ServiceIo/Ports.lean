import SnacMachine.Lib.Total
import SnacMachine.Lib.Word
import SnacMachine.Net.Address

/-!
# Port ownership

The embedding of `service_io/ports.rs`: one registry of transport ports and identifiers that the
translators and the local listeners of an interface share. A claim gives its holder a lease, and the
lease gives the port back when its last holder drops it. The registry is well formed (`Ports.Ok`)
when its counters count its entries; a claim touches a free entry only (`claim_ok`), and a lease
that is dropped touches its own entry only (`release_ok`).
-/

namespace SnacMachine

/-- Reference: `Owner` (`service_io/ports.rs:8`). -/
inductive Owner
  | local_ | translation
  deriving DecidableEq

/-- A protocol and a port or identifier of it. -/
abbrev PortKey := UInt8 × UInt16

/-- Reference: `State` (`service_io/ports.rs:13`), behind the handle `Ports`. -/
structure Ports where
  entries : OrdMap PortKey (Nat × Owner)
  localCount : Nat
  translationCount : Nat
  next : Nat

/-- The last holder of a port. Reference: `Held` (`service_io/ports.rs:25`). -/
structure Lease where
  key : PortKey
  id : Nat

namespace Ports

/-- Reference: `State::default` (`service_io/ports.rs:12`). -/
def default : Ports := ⟨.empty, 0, 0, 0⟩

/-- Reference: `Ports::occupied` (`service_io/ports.rs:47`). -/
def occupied (p : Ports) (protocol : UInt8) (port : UInt16) : Bool :=
  p.entries.contains (protocol, port)

/-- How many entries an owner has, as the registry counts them. -/
def count (p : Ports) : Owner → Nat
  | .local_ => p.localCount
  | .translation => p.translationCount

/-- The most entries an owner may have. Reference: `service_io/ports.rs:70`. -/
def limit : Owner → Nat
  | .local_ => 256
  | .translation => 4096

/-- Sets an owner's counter. -/
def setCount (p : Ports) (owner : Owner) (n : Nat) : Ports :=
  match owner with
  | .local_ => { p with localCount := n }
  | .translation => { p with translationCount := n }

/-- Reference: `Ports::claim` (`service_io/ports.rs:57`). -/
def claim (p : Ports) (protocol : UInt8) (port : UInt16) (owner : Owner) :
    Except IoError (Lease × Ports) :=
  if (protocol ≠ 1 ∧ protocol ≠ 6 ∧ protocol ≠ 17) ∨ (protocol ≠ 1 ∧ port = 0) then
    .error ⟨.invalidInput, "invalid transport port/identifier"⟩
  else if p.entries.contains (protocol, port) = true ∨ p.count owner ≥ limit owner then
    .error ⟨.wouldBlock, "transport port unavailable or ownership capacity"⟩
  else if p.next + 1 > u64Max then .error ⟨.other, "port generation exhausted"⟩
  else
    let id := p.next + 1
    let p' := { p with next := id, entries := p.entries.insert (protocol, port) (id, owner) }
    .ok (⟨(protocol, port), id⟩, p'.setCount owner (p'.count owner + 1))

/-- What happens when the last holder of a lease drops it; `none` where the code would panic.
Reference: `Held::drop` (`service_io/ports.rs:31`). -/
def release (p : Ports) (l : Lease) : Option Ports :=
  match p.entries.get l.key with
  | some (id, owner) =>
    if id = l.id then
      let p' := { p with entries := p.entries.remove l.key }
      if p'.count owner = 0 then none else some (p'.setCount owner (p'.count owner - 1))
    else some p
  | none => some p

/-- The entry weight of an owner. -/
def isOwner (owner : Owner) (_ : PortKey) (v : Nat × Owner) : Nat := if v.2 = owner then 1 else 0

/-- The counters count the entries. -/
def Ok (p : Ports) : Prop := ∀ owner, p.count owner = p.entries.total (isOwner owner)

/-- Setting a count leaves the entries. -/
@[simp] theorem setCount_entries (p : Ports) (o : Owner) (n : Nat) :
    (p.setCount o n).entries = p.entries := by cases o <;> rfl

/-- Setting a count sets it for its owner only. -/
theorem setCount_count (p : Ports) (o o' : Owner) (n : Nat) :
    (p.setCount o n).count o' = if o = o' then n else p.count o' := by
  cases o <;> cases o' <;> rfl

/-- An empty table is in order. -/
theorem default_ok : default.Ok := by
  intro owner
  cases owner <;> rfl

/-- A claim adds an entry where there was none, under a new lease. The counter of the owner rises by
one, as the number of its entries does (`OrdMap.total_insert`). -/
theorem claim_ok {p p' : Ports} {protocol : UInt8} {port : UInt16} {owner : Owner} {l : Lease}
    (h : p.claim protocol port owner = .ok (l, p')) (hp : p.Ok) :
    p'.Ok ∧ l.key = (protocol, port) ∧ p.entries.get l.key = none ∧
      p'.entries = p.entries.insert l.key (l.id, owner) := by
  unfold claim at h
  split at h
  · cases h
  split at h
  · cases h
  next hfree =>
  split at h
  · cases h
  obtain ⟨rfl, rfl⟩ := Prod.mk.inj (Except.ok.inj h)
  have hnone : p.entries.get (protocol, port) = none := by
    rw [← OrdMap.contains_eq_false_iff]
    exact Bool.eq_false_iff.2 fun hc => hfree (.inl hc)
  refine ⟨fun o => ?_, rfl, hnone, setCount_entries _ _ _⟩
  rw [setCount_count, setCount_entries, OrdMap.total_insert_of_none hnone, ← hp o]
  unfold isOwner
  split
  · next ho =>
    cases ho
    cases owner <;> rfl
  · cases o <;> rfl

/-- A valid lease that is dropped takes its own entry away, and the counter does not underflow: the
entry is one of those that the counter counts (`OrdMap.total_remove`). -/
theorem release_ok {p : Ports} {l : Lease} {owner : Owner} (hp : p.Ok)
    (hl : p.entries.get l.key = some (l.id, owner)) :
    ∃ p', p.release l = some p' ∧ p'.Ok ∧ p'.entries = p.entries.remove l.key := by
  have htotal := fun o => OrdMap.total_remove (f := isOwner o) hl
  have hcount : p.count owner = (p.entries.remove l.key).total (isOwner owner) + 1 := by
    rw [hp owner, ← htotal owner]
    simp [isOwner]
  unfold release
  rw [hl]
  simp only [if_true]
  have hc : ({ p with entries := p.entries.remove l.key } : Ports).count owner = p.count owner := by
    cases owner <;> rfl
  rw [if_neg (by omega)]
  refine ⟨_, rfl, fun o => ?_, setCount_entries _ _ _⟩
  rw [setCount_count, setCount_entries]
  split
  · next ho =>
    rw [← ho, hc, hcount]
    rfl
  · next ho =>
    have := htotal o
    simp only [isOwner, if_neg ho, Nat.add_zero] at this
    refine Eq.trans ?_ ((hp o).trans this.symm)
    cases o <;> rfl

end Ports

end SnacMachine
