import SnacMachine.Mdns.Tsr
import SnacMachine.Srp.Ownership

/-!
# The stamps of registrations

The names under which the Advertising Proxy publishes an SRP registry (`mdns/advertise.rs`) and the
stamps it gives them. `Replicas` is what two routers need of the stamps of one registration: when
each compares its own with what it hears of the other's, they must not both find the other newer.
That is so exactly while one of the two registrations is at most seven days and one second old
(`replicas_iff`), and a policy with a long lease lets a registry hold older ones
(`registered_stamp_stale`).
-/

namespace SnacMachine.Mdns

open Dns Srp

/-- Reference: `Mapping` (`mdns/advertise.rs:14`). -/
structure Mapping where
  zone : Name
  label : Bytes
  namespace_ : Name

/-- A lower-case hexadecimal digit. -/
def hexDigit (n : Nat) : UInt8 := (ascii "0123456789abcdef").getD n 0

/-- Reference: `replace_suffix` (`mdns/advertise.rs:165`). -/
def replaceSuffix (name from_ to_ : Name) : Option Name :=
  if within name from_ = false then some name
  else Name.fromLabels (name.labels.take (name.labels.length - from_.labels.length) ++ to_.labels)

namespace Mapping

/-- Reference: `Mapping::new` (`mdns/advertise.rs:27`). -/
def new (zone : Name) (dataset : Bytes) : Option Mapping :=
  if zone.labels = [] ∨ dataset = [] ∨ dataset.length > 31 then none
  else do
    let label := dataset.flatMap fun b => [hexDigit (b.toNat / 16), hexDigit (b.toNat % 16)]
    let namespace_ ← Name.fromLabels [label, ascii "local"]
    return ⟨zone, label, namespace_⟩

/-- Whether a service is live with its host. Reference: `service_live`
(`mdns/advertise.rs:149`). -/
def serviceLive (r : Registry) (s : Service) (now : Nat) : Bool :=
  decide (s.expires > now) && decide (s.keyExpires > now) &&
    r.hosts.entries.any fun e => e.1 == s.host && decide (e.2.expires > now) &&
      decide (e.2.keyExpires > now) && e.2.key.samePublicKey s.key

/-- The stamp of a published name: its live host's, or else its live service's. Reference:
`Mapping::stamp` (`mdns/advertise.rs:126`). -/
def stamp (m : Mapping) (r : Registry) (owner : Name) (now : Nat) : Option Stamp :=
  if within owner m.namespace_ = false then none
  else do
    let original ← replaceSuffix owner m.namespace_ m.zone
    match r.hosts.entries.find? fun e =>
        e.1 == original && decide (e.2.expires > now) && decide (e.2.keyExpires > now) with
    | some (_, h) => return ⟨keyChecksum h.key.bytes, h.receivedAt⟩
    | none =>
      let (_, s) ← r.services.entries.find? fun e => e.1 == original && serviceLive r e.2 now
      return ⟨keyChecksum s.key.bytes, s.receivedAt⟩

end Mapping

/-- What two routers need of their stamps of one registration: each decodes the other's, they do not
both find the other newer, equal stamps are found equal, and an older one is found newer or equal by
the other side. -/
def Replicas (a b : Stamp) (i j : UInt16) (now : Nat) : Prop :=
  ∃ a' b', Stamp.decode (a.encode i now) now = some (i, a') ∧
    Stamp.decode (b.encode j now) now = some (j, b') ∧
    ¬ (compare (some a) (some b') = .newer ∧ compare (some b) (some a') = .newer) ∧
    (a = b → compare (some a) (some b') = .equal) ∧
    (compare (some a) (some b') = .older →
      compare (some b) (some a') = .newer ∨ compare (some b) (some a') = .equal)

/-- An age that a stamp can express to within the tolerance of a comparison. -/
def Stamp.Recent (s : Stamp) (now : Nat) : Prop := now - s.receivedAt ≤ 604801000

/-- The relation of replicas, said of what each of them hears of the other. A stamp is heard with
its age in seconds, so both directions are comparisons of ages. -/
theorem replicas_heard {a b : Stamp} {i j : UInt16} {now : Nat} :
    Replicas a b i j now ↔
      ¬ (compare (some a) (some (b.heard now)) = .newer ∧
        compare (some b) (some (a.heard now)) = .newer) ∧
      (a = b → compare (some a) (some (b.heard now)) = .equal) ∧
      (compare (some a) (some (b.heard now)) = .older →
        compare (some b) (some (a.heard now)) = .newer ∨
        compare (some b) (some (a.heard now)) = .equal) := by
  constructor
  · rintro ⟨a', b', ha, hb, h⟩
    rw [Stamp.decode_encode] at ha hb
    cases ha
    cases hb
    exact h
  · intro h
    exact ⟨_, _, a.decode_encode i now, b.decode_encode j now, h⟩

/-- Two routers that hold one registration find each other's stamps consistent exactly while one of
the two is recent. -/
theorem replicas_iff {a b : Stamp} {now : Nat} (i j : UInt16) (hkey : a.keyChecksum = b.keyChecksum)
    (ha : a.receivedAt ≤ now) (hb : b.receivedAt ≤ now) :
    Replicas a b i j now ↔ a.Recent now ∨ b.Recent now := by
  have hab := compare_spec (a := a) (b := b.heard now) hkey
  have hba := compare_spec (a := b) (b := a.heard now) hkey.symm
  have ha' := Stamp.heard_spec ha
  have hb' := Stamp.heard_spec hb
  rw [replicas_heard]
  unfold Stamp.Recent
  constructor
  · rintro ⟨hboth, -, -⟩
    by_contra hold
    refine hboth ⟨?_, ?_⟩
    · rcases hab with ⟨_, h⟩ | ⟨h, _⟩ | ⟨_, h, _⟩
      · exact h
      · omega
      · omega
    · rcases hba with ⟨_, h⟩ | ⟨h, _⟩ | ⟨_, h, _⟩
      · exact h
      · omega
      · omega
  · intro hrecent
    refine ⟨?_, ?_, ?_⟩
    · rintro ⟨h1, h2⟩
      rw [h1] at hab
      rw [h2] at hba
      simp only [reduceCtorEq, and_true, and_false, or_false] at hab hba
      omega
    · rintro rfl
      rcases hab with ⟨h, _⟩ | ⟨h, _⟩ | ⟨_, _, h⟩
      · omega
      · omega
      · exact h
    · intro h1
      rw [h1] at hab
      simp only [reduceCtorEq, and_true, and_false, or_false, false_or] at hab
      rcases hba with ⟨_, h⟩ | ⟨h, _⟩ | ⟨_, _, h⟩
      · exact .inl h
      · omega
      · exact .inr h

/-- The name under which the data set of octet 7 publishes the sample host. -/
def publishedPrinter : Name := ⟨[ascii "printer", ascii "07", ascii "local"], by decide⟩

/-- A policy that grants leases of more than eight days. -/
def longPolicy : LeasePolicy := ⟨700000, 1209600, 30, 4500⟩

/-- The registry under the long policy. -/
def longRegistry : Registry :=
  (Registry.default.step Registry.toyCrypto (.setPolicy 0 longPolicy)).1

/-- An update of the sample host that asks for a long lease. -/
def longUpdate : Registry.Op :=
  Registry.accepted 0 { Registry.hostUpdate 0 1 with lease := 700000, keyLease := 700000 }

/-- Whether a registry can come to give a published name a stamp: it does so after a run under
policies that `validate` accepts, by a mapping that `Mapping.new` builds. -/
def Produced (s : Stamp) (now : Nat) : Prop :=
  ∃ (c : Crypto) (es : List (Registry.Op × Registry.Answer)) (r : Registry) (t : Nat) (zone : Name)
    (dataset : Bytes) (owner : Name),
    (Registry.machine c fun _ _ => True).Run .default 0 es r t ∧ t ≤ now ∧
      ((Mapping.new zone dataset).bind fun m => m.stamp r owner now) = some s

/-- The stamp of the sample is one that the registry produces. -/
theorem sampleStamp_produced : Produced ⟨134744072, 0⟩ 604801001 := by
  have run : (Registry.machine Registry.toyCrypto fun _ _ => True).Run .default 0
      [(.setPolicy 0 longPolicy, _), (longUpdate, _)]
      (longRegistry.step Registry.toyCrypto longUpdate).1 0 :=
    .snoc longUpdate (.snoc (.setPolicy 0 longPolicy) .nil (Nat.le_refl 0) trivial) (Nat.le_refl 0)
      trivial
  exact ⟨Registry.toyCrypto, _, _, 0, defaultZone, [7], publishedPrinter, run, by decide,
    by decide +kernel⟩

/-- Two routers that hold a registration of over seven days alike each find the other's stamp newer
than their own. -/
theorem registered_stamp_stale :
    longPolicy.validate = true ∧ Produced ⟨134744072, 0⟩ 604801001 ∧
      ¬ Replicas ⟨134744072, 0⟩ ⟨134744072, 0⟩ 0 0 604801001 := by
  refine ⟨by decide, sampleStamp_produced, ?_⟩
  rw [replicas_heard]
  decide +kernel

/-- The theorem applied to the stamps of a registration that was received two seconds ago: the
replicas agree on it. -/
theorem replicas_iff_recent : Replicas ⟨7, 1000⟩ ⟨7, 1000⟩ 0 1 3000 :=
  (replicas_iff 0 1 rfl (by decide) (by decide)).2
    (.inl (show (3000 : Int) - 1000 ≤ 604801000 by decide))

end SnacMachine.Mdns
