import SnacMachine.Dns.RoundTrip
import SnacMachine.Srp.Wire

/-!
# What a verified update carries

`Update.Ok` collects what `Validator.verify` guarantees of the updates it returns: every record is
of a kind its owner may have, in the class IN, with data that fits its type; SRV records point to
the update's host and PTR records to their service; no name is the root and no list is longer than
the authority section may be. `verify_ok` proves it, from one lemma for each part of the validator.
-/

namespace SnacMachine.Srp

open Dns

/-- A key that the journal accepts. Reference: `Reader::key` (`srp/registry/journal.rs:268`). -/
def Key.Ok (k : Key) : Prop := k.protocol = 3 ∧ Key.length? k.algorithm = some k.bytes.length

/-- A record of the class IN, at a name, of one of some types, with data that fits the type. -/
structure RecordAt (name : Name) (kinds : List UInt16) (r : Record) : Prop where
  name : (r.name == name) = true
  kind : r.kind ∈ kinds
  cls : r.cls = 1
  fits : Fits r.kind r.data

/-- A PTR record of the class IN to a service. -/
structure PointsTo (name : Name) (r : Record) : Prop where
  kind : r.kind = 12
  cls : r.cls = 1
  data : (r.data == .name name) = true
  fits : Fits r.kind r.data

/-- The records that a service carries. -/
structure ServiceRecords (name host : Name) (records discovery : List Record) : Prop where
  kinds : ∀ r ∈ records, RecordAt name [16, 33] r
  targets : ∀ r ∈ records, ∀ p w q target, r.data = .srv p w q target → (target == host) = true
  pointers : ∀ r ∈ discovery, PointsTo name r
  count : records.length ≤ 256
  pointerCount : discovery.length ≤ 256

/-- What the validator guarantees of an update. -/
structure Update.Ok (u : Update) : Prop where
  host : u.host.labels ≠ []
  key : u.key.Ok
  addresses : ∀ r ∈ u.addresses, RecordAt u.host [1, 28] r
  count : u.addresses.length ≤ 256
  names : ∀ s ∈ u.services, s.name.labels ≠ []
  services : ∀ s ∈ u.services, ServiceRecords s.name u.host s.records s.discovery

/-- A key that is taken from a record has the length of its algorithm. It is compared before the key
is returned. -/
theorem Key.fromRecord_ok {r : Record} {k : Key} (h : Key.fromRecord r = .ok k) : k.Ok := by
  unfold Key.fromRecord at h
  split at h
  · split at h
    · exact absurd h (by simp)
    · next len hl =>
      split at h
      · exact absurd h (by simp)
      · next hc =>
        obtain rfl := Except.ok.inj h
        exact ⟨by_contra fun hp => hc (.inl hp), by rw [hl, by_contra fun hp => hc (.inr hp)]⟩
  · exact absurd h (by simp)

/-! ## The authority section -/

/-- A record of the authority section, as `sortRecord` sees it. -/
structure Sorted.Ok (seen : List Record) (s : Sorted) : Prop where
  groups : ∀ e ∈ s.groups.entries, (∀ r ∈ e.2, r ∈ seen ∧ SameKey r.name e.1) ∧
    e.2.length ≤ seen.length ∧ e.1.labels ≠ []
  discovery : ∀ r ∈ s.discovery, r ∈ seen ∧ r.kind = 12
  count : s.discovery.length ≤ seen.length

/-- Names that are the same key are both the root or neither. -/
theorem labels_eq_nil_congr {a b : Name} (h : SameKey a b) : a.labels = [] ↔ b.labels = [] := by
  have hc : a.canonical.length = b.canonical.length := by
    rw [Name.beq_iff.1 (Name.beq_iff_sameKey.2 h)]
  have key : ∀ n : Name, n.labels = [] ↔ n.canonical.length = 1 := by
    intro n
    rw [Name.length_canonical, Name.wire, Name.length_labelsWire]
    cases n.labels with
    | nil => simp
    | cons l ls => simp
  rw [key, key, hc]

/-- A name within a zone that is not the root is not the root. -/
theorem within_labels {name zone : Name} (h : within name zone = true) (hz : zone.labels ≠ []) :
    name.labels ≠ [] := by
  unfold within at h
  simp only [Bool.and_eq_true, decide_eq_true_eq] at h
  have := List.length_pos_of_ne_nil hz
  exact List.ne_nil_of_length_pos (by omega)

/-- Sorting one more record keeps the invariant of the sorted ones. The record is a pointer, or one
more of its owner's group, or begins a group of its own, whose owner is within the zone. -/
theorem sortRecord_ok {zone : Name} (hz : zone.labels ≠ []) {seen : List Record} {s s' : Sorted}
    {r : Record} (hs : s.Ok seen) (h : sortRecord zone s r = .ok s') : s'.Ok (seen ++ [r]) := by
  simp only [sortRecord, bind, Except.bind, pure, Except.pure, throw, throwThe,
    MonadExceptOf.throw] at h
  have hmono : ∀ x, x ∈ seen → x ∈ seen ++ [r] := fun x hx => List.mem_append_left _ hx
  split at h
  · exact absurd h (by simp)
  split at h
  · exact absurd h (by simp)
  next hwithin =>
  split at h
  · next hk =>
    split at h
    · exact absurd h (by simp)
    obtain rfl := Except.ok.inj h
    refine ⟨fun e he => ?_, fun x hx => ?_, by simpa using hs.count⟩
    · obtain ⟨h₁, h₂, h₃⟩ := hs.groups e he
      exact ⟨fun x hx => ⟨hmono x (h₁ x hx).1, (h₁ x hx).2⟩, by simp; omega, h₃⟩
    · rcases List.mem_append.1 hx with hx | hx
      · exact ⟨hmono x (hs.discovery x hx).1, (hs.discovery x hx).2⟩
      · rw [List.mem_singleton.1 hx]
        exact ⟨by simp, hk⟩
  · split at h
    · exact absurd h (by simp)
    obtain rfl := Except.ok.inj h
    refine ⟨fun e he => ?_, fun x hx => ⟨hmono x (hs.discovery x hx).1, (hs.discovery x hx).2⟩, ?_⟩
    · rcases OrdMap.mem_entries_insert he with ⟨he, -⟩ | ⟨hk, hv⟩
      · obtain ⟨h₁, h₂, h₃⟩ := hs.groups e he
        exact ⟨fun x hx => ⟨hmono x (h₁ x hx).1, (h₁ x hx).2⟩, by simp; omega, h₃⟩
      · have hlabels : e.1.labels ≠ [] := by
          have := within_labels (by simpa using hwithin) hz
          rwa [ne_eq, labels_eq_nil_congr hk]
        have hold : (∀ x ∈ (s.groups.get r.name).getD [], x ∈ seen ∧ SameKey x.name r.name) ∧
            ((s.groups.get r.name).getD []).length ≤ seen.length := by
          cases hg : s.groups.get r.name with
          | none => simp
          | some rrs =>
            obtain ⟨k, hk, hm⟩ := OrdMap.get_eq_some_iff.1 hg
            obtain ⟨h₁, h₂, -⟩ := hs.groups _ hm
            exact ⟨fun x hx => ⟨(h₁ x hx).1, (h₁ x hx).2.trans hk⟩, h₂⟩
        rw [hv]
        refine ⟨fun x hx => ?_, by simpa using hold.2, hlabels⟩
        rcases List.mem_append.1 hx with hx | hx
        · exact ⟨hmono x (hold.1 x hx).1, (hold.1 x hx).2.trans hk.symm⟩
        · rw [List.mem_singleton.1 hx]
          exact ⟨by simp, hk.symm⟩
    · simpa using Nat.le_succ_of_le hs.count

/-- An invariant of the steps of a fold that may fail holds after it. By recursion on the list; the
items that were seen are an argument of the invariant. -/
theorem foldlM_ok {α σ ε : Type} {f : σ → α → Except ε σ} {I : List α → σ → Prop}
    (step : ∀ seen s x s', I seen s → f s x = .ok s' → I (seen ++ [x]) s') :
    ∀ {l seen : List α} {s s' : σ}, I seen s → l.foldlM f s = .ok s' → I (seen ++ l) s'
  | [], seen, s, s', hs, h => by
    obtain rfl := Except.ok.inj h
    simpa using hs
  | x :: l, seen, s, s', hs, h => by
    rw [List.foldlM_cons] at h
    cases hx : f s x with
    | error e => rw [hx] at h; exact absurd h (by simp [bind, Except.bind])
    | ok s₁ =>
      rw [hx] at h
      have := foldlM_ok step (step seen s x s₁ hs hx) h
      rwa [List.append_assoc] at this

/-- Each result of a map that may fail comes from an item. By recursion on the list; a failure would
have ended the map. -/
theorem mapM_ok {α β ε : Type} {f : α → Except ε β} : ∀ {l : List α} {out : List β},
    l.mapM f = .ok out → ∀ y ∈ out, ∃ x ∈ l, f x = .ok y
  | [], out, h => by
    simp only [List.mapM_nil, pure, Except.pure, Except.ok.injEq] at h
    simp [← h]
  | x :: l, out, h => by
    rw [List.mapM_cons] at h
    cases hx : f x with
    | error e => rw [hx] at h; exact absurd h (by simp [bind, Except.bind])
    | ok y =>
      rw [hx] at h
      cases hl : l.mapM f with
      | error e => simp [hl, bind, Except.bind] at h
      | ok ys =>
        simp only [hl, bind, Except.bind, pure, Except.pure, Except.ok.injEq] at h
        subst h
        intro z hz
        rcases List.mem_cons.1 hz with rfl | hz
        · exact ⟨x, List.mem_cons_self, hx⟩
        · obtain ⟨w, hw, he⟩ := mapM_ok hl z hz
          exact ⟨w, List.mem_cons_of_mem _ hw, he⟩

/-! ## Instructions -/

/-- The additions of an owner are those after its first record, all of the class IN. The first
record deletes what the owner had before. -/
theorem instructions_ok {rrs adds : List Record} (h : instructions rrs = .ok adds) :
    (∀ r ∈ adds, r ∈ rrs ∧ r.cls = 1) ∧ adds.length ≤ rrs.length := by
  unfold instructions at h
  split at h
  · exact absurd h (by simp)
  · next first rest =>
    split at h
    · exact absurd h (by simp)
    · split at h
      · next hall =>
        obtain rfl := Except.ok.inj h
        simp only [List.all_eq_true, Bool.and_eq_true, beq_iff_eq] at hall
        exact ⟨fun r hr => ⟨List.mem_cons_of_mem _ hr, (hall r hr).1⟩, by simp⟩
      · exact absurd h (by simp)

/-- The addresses of a host are among the records added for it, and are addresses. By recursion on
the records: a key record is passed over, and one of any other type than A and AAAA is refused. -/
theorem hostAddresses_ok {lease : UInt32} : ∀ {adds addresses : List Record},
    hostAddresses lease adds = .ok addresses →
    (∀ r ∈ addresses, r ∈ adds ∧ r.kind ∈ [1, 28]) ∧ addresses.length ≤ adds.length
  | [], addresses, h => by
    obtain rfl := Except.ok.inj h
    simp
  | r :: rest, addresses, h => by
    unfold hostAddresses at h
    split at h
    · obtain ⟨h₁, h₂⟩ := hostAddresses_ok h
      exact ⟨fun x hx => ⟨List.mem_cons_of_mem _ (h₁ x hx).1, (h₁ x hx).2⟩, Nat.le_succ_of_le h₂⟩
    · split at h
      · exact absurd h (by simp)
      · next hk =>
        cases hr : hostAddresses lease rest with
        | error e => simp [hr, bind, Except.bind] at h
        | ok rs =>
          simp only [hr, bind, Except.bind, pure, Except.pure, Except.ok.injEq] at h
          subst h
          obtain ⟨h₁, h₂⟩ := hostAddresses_ok hr
          refine ⟨fun x hx => ?_, by simpa using h₂⟩
          rcases List.mem_cons.1 hx with rfl | hx
          · refine ⟨List.mem_cons_self, ?_⟩
            by_contra hn
            exact hk (.inl (by simpa using hn))
          · exact ⟨List.mem_cons_of_mem _ (h₁ x hx).1, (h₁ x hx).2⟩

/-- The records kept of a service's additions. -/
structure ServiceAdds.Ok (host : Name) (seen : List Record) (a : ServiceAdds) : Prop where
  records : ∀ r ∈ a.records, r ∈ seen ∧ r.kind ∈ [16, 33] ∧
    ∀ p w q target, r.data = .srv p w q target → (target == host) = true
  count : a.records.length ≤ seen.length

/-- Sorting one more record of a service keeps the invariant of the sorted ones. A key is checked
and counted only; a service record must point to the host, and any other must be a text. -/
theorem serviceAdd_ok {host : Name} {key : Key} {seen : List Record}
    {a a' : ServiceAdds} {r : Record} (ha : a.Ok host seen) (h : serviceAdd host key a r = .ok a') :
    a'.Ok host (seen ++ [r]) := by
  have hold : ∀ x ∈ a.records, x ∈ seen ++ [r] ∧ x.kind ∈ [16, 33] ∧
      ∀ p w q target, x.data = .srv p w q target → (target == host) = true :=
    fun x hx => ⟨List.mem_append_left _ (ha.records x hx).1, (ha.records x hx).2⟩
  unfold serviceAdd at h
  split at h
  · split at h
    · simp only [bind, Except.bind, pure, Except.pure, throw, throwThe, MonadExceptOf.throw] at h
      split at h
      · exact absurd h (by simp)
      split at h
      · exact absurd h (by simp)
      split at h
      · exact absurd h (by simp)
      obtain rfl := Except.ok.inj h
      exact ⟨hold, by simpa using Nat.le_succ_of_le ha.count⟩
    · exact absurd h (by simp)
  · next p w q target hd =>
    split at h
    · next hk =>
      split at h
      · next ht =>
        obtain rfl := Except.ok.inj h
        refine ⟨fun x hx => ?_, by simpa using ha.count⟩
        rcases List.mem_append.1 hx with hx | hx
        · exact hold x hx
        · rw [List.mem_singleton.1 hx]
          refine ⟨by simp, by simp [hk], fun p' w' q' target' hd' => ?_⟩
          rw [hd] at hd'
          injection hd' with _ _ _ he
          exact he ▸ ht
      · exact absurd h (by simp)
    · exact absurd h (by simp)
  · next hd =>
    split at h
    · next hk =>
      obtain rfl := Except.ok.inj h
      refine ⟨fun x hx => ?_, by simpa using ha.count⟩
      rcases List.mem_append.1 hx with hx | hx
      · exact hold x hx
      · rw [List.mem_singleton.1 hx]
        exact ⟨by simp, by simp [hk], fun p' w' q' target' hd' => by simp [hd] at hd'⟩
    · exact absurd h (by simp)
  · exact absurd h (by simp)

/-- The update of a service holds its text and service records, which point to the host. What the
loop over its records gathers is an invariant of the loop (`serviceAdd`), and the checks after it
count them. -/
theorem serviceUpdate_ok {host : Name} {key : Key} {lease : UInt32} {group : Name × List Record}
    {s : ServiceUpdate} (h : serviceUpdate host key lease group = .ok s) :
    s.name = group.1 ∧ s.discovery = [] ∧ s.records.length ≤ group.2.length ∧
      ∀ r ∈ s.records, r ∈ group.2 ∧ r.cls = 1 ∧ r.kind ∈ [16, 33] ∧
        ∀ p w q target, r.data = .srv p w q target → (target == host) = true := by
  simp only [serviceUpdate, bind, Except.bind, pure, Except.pure, throw, throwThe,
    MonadExceptOf.throw] at h
  cases hadds : instructions group.2 with
  | error e => simp [hadds] at h
  | ok adds =>
    simp only [hadds] at h
    cases ha : adds.foldlM (serviceAdd host key) ⟨[], 0, 0, 0⟩ with
    | error e => simp [ha] at h
    | ok a =>
      simp only [ha] at h
      split at h
      · exact absurd h (by simp)
      obtain rfl := Except.ok.inj h
      have hok : a.Ok host ([] ++ adds) :=
        foldlM_ok (I := fun seen a => ServiceAdds.Ok host seen a)
          (fun seen a x a' ha h => serviceAdd_ok ha h) ⟨by simp, by simp⟩ ha
      obtain ⟨hin, hle⟩ := instructions_ok hadds
      refine ⟨rfl, rfl, (hok.count.trans hle), fun r hr => ?_⟩
      obtain ⟨hr, hk, ht⟩ := hok.records r hr
      exact ⟨(hin r hr).1, (hin r hr).2, hk, ht⟩

/-! ## Discovery -/

/-- Pushing a pointer appends it to a service of that name, and leaves the others alone. By
recursion on the services, up to the first of the name. -/
theorem mem_pushDiscovery {target : Name} {r : Record} {x : ServiceUpdate} :
    ∀ {ss : List ServiceUpdate}, x ∈ pushDiscovery target r ss →
    x ∈ ss ∨ ∃ s ∈ ss, (s.name == target) = true ∧ x = { s with discovery := s.discovery ++ [r] }
  | [], h => by simp [pushDiscovery] at h
  | s :: ss, h => by
    unfold pushDiscovery at h
    split at h
    · next ht =>
      rcases List.mem_cons.1 h with rfl | h
      · exact .inr ⟨s, List.mem_cons_self, ht, rfl⟩
      · exact .inl (List.mem_cons_of_mem _ h)
    · rcases List.mem_cons.1 h with rfl | h
      · exact .inl List.mem_cons_self
      · rcases mem_pushDiscovery h with h | ⟨s', hs', h⟩
        · exact .inl (List.mem_cons_of_mem _ h)
        · exact .inr ⟨s', List.mem_cons_of_mem _ hs', h⟩

/-- PTR records are added to the services they point to; nothing else of a service changes. By
recursion on the records, each of which is appended to the first service with its target, or only
checked if it deletes. -/
theorem discoveryAdds_ok {zone : Name} :
    ∀ {rs : List Record} {services services' : List ServiceUpdate},
    discoveryAdds zone rs services = .ok services' → ∀ x ∈ services', ∃ s ∈ services,
      x.name = s.name ∧ x.records = s.records ∧ x.deleted = s.deleted ∧
      x.discovery.length ≤ s.discovery.length + rs.length ∧
      ∀ r ∈ x.discovery, r ∈ s.discovery ∨ (r ∈ rs ∧ r.cls = 1 ∧ (r.data == .name s.name) = true)
  | [], services, services', h, x, hx => by
    obtain rfl := Except.ok.inj h
    exact ⟨x, hx, rfl, rfl, rfl, by simp, fun r hr => .inl hr⟩
  | r :: rest, services, services', h, x, hx => by
    unfold discoveryAdds at h
    split at h
    · next target hd =>
      split at h
      · exact absurd h (by simp)
      · simp only at h
        split at h
        · exact absurd h (by simp)
        · obtain ⟨s, hs, hn, hrec, hdel, hlen, hdisc⟩ := discoveryAdds_ok h x hx
          have hdisc' : ∀ y ∈ x.discovery, y ∈ s.discovery ∨
              (y ∈ r :: rest ∧ y.cls = 1 ∧ (y.data == .name s.name) = true) :=
            fun y hy => (hdisc y hy).imp id fun h => ⟨List.mem_cons_of_mem _ h.1, h.2⟩
          split at hs
          · next hcls =>
            rcases mem_pushDiscovery hs with hs | ⟨s₀, hs₀, ht, rfl⟩
            · exact ⟨s, hs, hn, hrec, hdel, by simp; omega, hdisc'⟩
            · refine ⟨s₀, hs₀, hn, hrec, hdel, by simp at hlen ⊢; omega, fun y hy => ?_⟩
              rcases hdisc' y hy with hy | hy
              · rcases List.mem_append.1 hy with hy | hy
                · exact .inl hy
                · rw [List.mem_singleton.1 hy]
                  refine .inr ⟨List.mem_cons_self, hcls, ?_⟩
                  rw [hd]
                  exact (PartialEquivBEq.symm ht : (target == s₀.name) = true)
              · exact .inr hy
          · exact ⟨s, hs, hn, hrec, hdel, by simp; omega, hdisc'⟩
    · exact absurd h (by simp)

/-! ## The validator -/

/-- The key of an update has the length of its algorithm. It is read from a record, where the length
is checked, or is one that was stored. -/
theorem updateKey_ok {lease : UInt32} {host : Name} {keys : List Record}
    {lookup : Name → Option Key} {k : Key} (hl : ∀ n k, lookup n = some k → k.Ok)
    (h : updateKey lease host keys lookup = .ok k) :
    k.Ok := by
  unfold updateKey at h
  split at h
  · split at h
    · exact absurd h (by simp)
    · exact Key.fromRecord_ok h
  · split at h
    · split at h
      · next hk =>
        obtain rfl := Except.ok.inj h
        exact hl _ _ hk
      · exact absurd h (by simp)
    · exact absurd h (by simp)

/-- The zones of a validator, none of them the root. -/
def Validator.Ok (v : Validator) : Prop := ∀ z ∈ v.zones, z.labels ≠ []

/-- A validator has no root zone. -/
theorem Validator.new_ok {zones : List Name} {v : Validator} (h : Validator.new zones = .ok v) :
    v.Ok := by
  unfold Validator.new at h
  split at h
  · exact absurd h (by simp)
  · next hc =>
    obtain rfl := Except.ok.inj h
    intro z hz he
    exact hc (.inr (List.any_eq_true.2 ⟨z, hz, by simp [he]⟩))

/-- The steps that an update which passed the checks went through. -/
def Checked (v : Validator) (bytes : Bytes) (lookup : Name → Option Key) (u : Update) : Prop :=
  ∃ m sorted rrs adds services, Message.parse bytes .unicast = some m ∧ m.flags = 0x2800 ∧
    ofBe ((bytes.drop 8).take 2) ≤ 256 ∧
    (v.zones.any (fun z => z == u.zone) = true ∨ (u.zone == defaultZone) = true) ∧
    within u.host u.zone = true ∧
    m.authority.foldlM (sortRecord u.zone) ⟨.empty, [], .empty⟩ = .ok sorted ∧
    sorted.groups.get u.host = some rrs ∧ instructions rrs = .ok adds ∧
    updateKey u.lease u.host (adds.filter fun r => r.kind == 25) lookup = .ok u.key ∧
    hostAddresses u.lease adds = .ok u.addresses ∧
    (sorted.groups.remove u.host).entries.mapM (serviceUpdate u.host u.key u.lease) = .ok services ∧
    discoveryAdds u.zone sorted.discovery services = .ok u.services

/-- A message that passes the checks passes each of them. The checks of `Validator::verify` are
followed in their order; each result of one of them is named by the next clause of `Checked`. -/
theorem Validator.checked_steps {c : Crypto} {v : Validator} {bytes : Bytes} {now : Nat}
    {lookup : Name → Option Key} {x : Update × Bytes × Bytes}
    (h : v.checked c bytes now lookup = .ok x) : Checked v bytes lookup x.1 := by
  simp only [Validator.checked, bind, Except.bind, pure, Except.pure, throw, throwThe,
    MonadExceptOf.throw] at h
  split at h
  · exact absurd h (by simp)
  next hcount =>
  split at h
  case h_2 => exact absurd h (by simp)
  next m hm =>
  split at h
  case h_2 => exact absurd h (by simp)
  next q hq =>
  split at h
  · exact absurd h (by simp)
  next hflags =>
  split at h
  · exact absurd h (by simp)
  next hzone =>
  split at h
  · exact absurd h (by simp)
  split at h
  case h_2 => exact absurd h (by simp)
  split at h
  · exact absurd h (by simp)
  next lease hlease =>
  split at h
  case h_2 => exact absurd h (by simp)
  next host signature hsig =>
  split at h
  · exact absurd h (by simp)
  next hhost =>
  split at h
  · exact absurd h (by simp)
  next sorted hsorted =>
  split at h
  case h_2 => exact absurd h (by simp)
  next rrs hrrs =>
  split at h
  · exact absurd h (by simp)
  next adds hadds =>
  split at h
  · exact absurd h (by simp)
  next key hkey =>
  split at h
  · exact absurd h (by simp)
  next addresses haddresses =>
  split at h
  · exact absurd h (by simp)
  split at h
  · exact absurd h (by simp)
  next services hservices =>
  split at h
  · exact absurd h (by simp)
  next services' hdiscovery =>
  split at h
  · exact absurd h (by simp)
  split at h
  · exact absurd h (by simp)
  split at h
  · exact absurd h (by simp)
  split at h
  case h_2 => exact absurd h (by simp)
  obtain rfl := Except.ok.inj h
  have hten : 10 ≤ bytes.length := by
    have := (parse_authority_length hm).2
    omega
  refine ⟨m, sorted, rrs, adds, services, hm, ?_, ?_, ?_, ?_, hsorted, hrrs, hadds,
    hkey, haddresses, hservices, hdiscovery⟩
  · by_contra hne
    exact hflags (.inl hne)
  · by_contra hgt
    exact hcount ⟨hten, by omega⟩
  · by_contra hne
    simp only [not_or, Bool.not_eq_true] at hne
    exact hzone hne
  · by_contra hne
    exact hhost (.inr (.inr (.inr (.inl (by simpa using hne)))))

/-- A verified update is of the form that the registry relies on. The parser has checked the data of
each record, sorting has grouped them by owner (`sortRecord_ok`), and what each group was turned
into fits its owner. -/
theorem Checked.ok {v : Validator} {bytes : Bytes} {lookup : Name → Option Key} {u : Update}
    (h : Checked v bytes lookup u) (hv : v.Ok) (hl : ∀ n k, lookup n = some k → k.Ok) : u.Ok := by
  obtain ⟨m, sorted, rrs, adds, services, hm, hflags, hcount, hserved, hwithin,
    hsorted, hrrs, hadds, hkey, haddresses, hservices, hdiscovery⟩ := h
  have hwf := parse_wellFormed hm
  have hlen : m.authority.length ≤ 256 := by
    rw [(parse_authority_length hm).1, u16At, UInt16.toNat_ofNat']
    exact (Nat.mod_le _ _).trans hcount
  have hzone : u.zone.labels ≠ [] := by
    rcases hserved with hz | hz
    · obtain ⟨z, hz, he⟩ := List.any_eq_true.1 hz
      rw [ne_eq, ← labels_eq_nil_congr (Name.beq_iff_sameKey.1 he)]
      exact hv z hz
    · rw [ne_eq, labels_eq_nil_congr (Name.beq_iff_sameKey.1 hz)]
      decide
  have hfits : ∀ r ∈ m.authority, r.cls = 1 → Fits r.kind r.data := by
    intro r hr hcls
    rcases hwf.fits r (by simp [Message.records, hr]) with ⟨-, hd⟩ | ⟨hf, -⟩
    · rcases hd.2 with h | h <;> rw [hcls] at h <;> exact absurd h (by decide)
    · exact hf
  have hsok : sorted.Ok ([] ++ m.authority) :=
    foldlM_ok (I := fun seen s => Sorted.Ok seen s) (fun seen s x s' hs h =>
      sortRecord_ok hzone hs h)
      ⟨by simp [OrdMap.empty], by simp, by simp⟩ hsorted
  rw [List.nil_append] at hsok
  obtain ⟨hinstr, hinstrlen⟩ := instructions_ok hadds
  obtain ⟨haddr, haddrlen⟩ := hostAddresses_ok haddresses
  obtain ⟨k, hk, hgroup⟩ := OrdMap.get_eq_some_iff.1 hrrs
  obtain ⟨hmem, hgrouplen, -⟩ := hsok.groups _ hgroup
  have hrrslen : rrs.length ≤ m.authority.length := hgrouplen
  have hservice : ∀ s ∈ u.services, s.name.labels ≠ [] ∧
      ServiceRecords s.name u.host s.records s.discovery := by
    intro s hs
    obtain ⟨s₀, hs₀, hname, hrec, -, hdlen, hdisc⟩ := discoveryAdds_ok hdiscovery s hs
    obtain ⟨g, hg, hsu⟩ := mapM_ok hservices s₀ hs₀
    obtain ⟨hgname, hnil, hreclen, hrecs⟩ := serviceUpdate_ok hsu
    obtain ⟨hgmem, hglen, hglabels⟩ := hsok.groups g (OrdMap.mem_entries_remove.1 hg).1
    rw [hname, hrec, hgname]
    refine ⟨hglabels, ⟨fun r hr => ?_, fun r hr => (hrecs r hr).2.2.2,
      fun r hr => ?_, by omega, ?_⟩⟩
    · obtain ⟨hr, hcls, hkind, -⟩ := hrecs r hr
      exact ⟨Name.beq_iff_sameKey.2 (hgmem r hr).2, hkind, hcls, hfits r (hgmem r hr).1 hcls⟩
    · rcases hdisc r hr with hr | ⟨hr, hcls, hdata⟩
      · rw [hnil] at hr
        exact absurd hr (by simp)
      · obtain ⟨hr, hkind⟩ := hsok.discovery r hr
        exact ⟨hkind, hcls, hgname ▸ hdata, hfits r hr hcls⟩
    · rw [hnil, List.length_nil, Nat.zero_add] at hdlen
      have := hsok.count
      omega
  refine ⟨within_labels hwithin hzone, updateKey_ok hl hkey, fun r hr => ?_, by omega,
    fun s hs => (hservice s hs).1, fun s hs => (hservice s hs).2⟩
  obtain ⟨hr, hkind⟩ := haddr r hr
  obtain ⟨hr, hcls⟩ := hinstr r hr
  exact ⟨Name.beq_iff_sameKey.2 ((hmem r hr).2.trans hk), hkind, hcls, hfits r (hmem r hr).1 hcls⟩

/-- The services of a verified update that have one name are deleted together. They come from one
group of records, since the groups have different names. -/
theorem Checked.deleted {v : Validator} {bytes : Bytes} {lookup : Name → Option Key} {u : Update}
    (h : Checked v bytes lookup u) {x s : ServiceUpdate} (hx : x ∈ u.services) (hs : s ∈ u.services)
    (hn : SameKey x.name s.name) : x.deleted = s.deleted := by
  obtain ⟨m, sorted, rrs, adds, services, -, -, -, -, -, -, -, -, -, -, hservices, hdiscovery⟩ := h
  obtain ⟨x₀, hx₀, hxn, -, hxd, -⟩ := discoveryAdds_ok hdiscovery x hx
  obtain ⟨s₀, hs₀, hsn, -, hsd, -⟩ := discoveryAdds_ok hdiscovery s hs
  obtain ⟨gx, hgx, hux⟩ := mapM_ok hservices x₀ hx₀
  obtain ⟨gs, hgs, hus⟩ := mapM_ok hservices s₀ hs₀
  have hnames : SameKey gx.1 gs.1 := by
    rw [← (serviceUpdate_ok hux).1, ← (serviceUpdate_ok hus).1, ← hxn, ← hsn]
    exact hn
  have hgroup : gx = gs := OrdMap.eq_of_mem_of_sameKey hgx hgs hnames
  rw [hgroup, hus] at hux
  rw [hxd, hsd, Except.ok.inj hux]

/-- A message that is verified passes the checks. The signature is tested after them, and a failure
of either is returned as an error. -/
theorem Validator.verify_checked {c : Crypto} {v : Validator} {bytes : Bytes} {now budget : Nat}
    {lookup : Name → Option Key} {u : Update} (h : (v.verify c bytes now budget lookup).1 = .ok u) :
    Checked v bytes lookup u := by
  unfold Validator.verify at h
  split at h
  · exact absurd h (by simp)
  · next hc =>
    split at h
    · exact absurd h (by simp)
    · split at h
      · obtain rfl := Except.ok.inj h
        exact Validator.checked_steps hc
      · exact absurd h (by simp)

/-- A verified update is in order. -/
theorem Validator.verify_ok {c : Crypto} {v : Validator} {bytes : Bytes} {now budget : Nat}
    {lookup : Name → Option Key} {u : Update} (hv : v.Ok) (hl : ∀ n k, lookup n = some k → k.Ok)
    (h : (v.verify c bytes now budget lookup).1 = .ok u) : u.Ok :=
  (Validator.verify_checked h).ok hv hl

end SnacMachine.Srp
