import SnacMachine.Srp.JournalWire
import SnacMachine.Srp.Ownership

/-!
# Restarts

The registry of every run of verified updates keeps what the journal's reader checks (`Kept`), so
the journal that a successful update hands to the store can be read at any later time, and what is
read is the registry with its leases shortened by the time that has passed (`restart`).
-/

namespace SnacMachine.Srp

open Dns

/-! ## One entry -/

/-- Of the owner of a record only the name without its case matters. -/
theorem RecordAt.congr {n n' : Name} {kinds : List UInt16} {r : Record} (h : RecordAt n kinds r)
    (hn : SameKey n n') : RecordAt n' kinds r :=
  ⟨PartialEquivBEq.trans h.name (Name.beq_iff_sameKey.2 hn), h.kind, h.cls, h.fits⟩

/-- Of the target of a pointer only the name without its case matters. -/
theorem PointsTo.congr {n n' : Name} {r : Record} (h : PointsTo n r) (hn : SameKey n n') :
    PointsTo n' r := by
  obtain ⟨x, hx, he⟩ := Rdata.eq_name_of_beq h.data
  refine ⟨h.kind, h.cls, ?_, h.fits⟩
  rw [hx]
  exact (PartialEquivBEq.trans he (Name.beq_iff_sameKey.2 hn) : (x == n') = true)

/-- A host is in order under every spelling of its name. -/
theorem HostOk.congr {now : Nat} {n n' : Name} {h : Host} (hh : HostOk now n h)
    (hn : SameKey n n') :
    HostOk now n' h :=
  ⟨fun he => hh.labels ((labels_eq_nil_congr hn).2 he), hh.key, hh.leases,
    fun r hr => (hh.addresses r hr).congr hn, hh.count⟩

/-- A service is in order under every spelling of its name. -/
theorem ServiceOk.congr {now : Nat} {n n' : Name} {s : Service} (hs : ServiceOk now n s)
    (hn : SameKey n n') : ServiceOk now n' s :=
  ⟨fun he => hs.labels ((labels_eq_nil_congr hn).2 he), hs.host, hs.key, hs.leases,
    ⟨fun r hr => (hs.records.kinds r hr).congr hn, hs.records.targets,
      fun r hr => (hs.records.pointers r hr).congr hn, hs.records.count, hs.records.pointerCount⟩⟩

/-- A host that is in order stays so as time passes. -/
theorem HostOk.later {now t : Nat} {n : Name} {h : Host} (hh : HostOk now n h) (hle : now ≤ t) :
    HostOk t n h := { hh with leases := ⟨hh.leases.ordered, by have := hh.leases.bounded; omega⟩ }

/-- A service that is in order stays so as time passes. -/
theorem ServiceOk.later {now t : Nat} {n : Name} {s : Service} (hs : ServiceOk now n s)
    (hle : now ≤ t) : ServiceOk t n s :=
  { hs with leases := ⟨hs.leases.ordered, by have := hs.leases.bounded; omega⟩ }

/-- Expiry leaves a host in order. -/
theorem HostOk.expire {now t : Nat} {n : Name} {h : Host} (hh : HostOk now n h) :
    HostOk now n (h.expire t) := by
  unfold Host.expire
  split
  · exact ⟨hh.labels, hh.key, ⟨Nat.zero_le _, hh.leases.bounded⟩, by simp, by simp⟩
  · exact hh

/-- A service whose records lapse stays in order. -/
theorem ServiceOk.lapse {now : Nat} {n : Name} {s : Service} (hs : ServiceOk now n s) :
    ServiceOk now n s.lapse :=
  ⟨hs.labels, hs.host, hs.key, ⟨Nat.zero_le _, hs.leases.bounded⟩,
    ⟨by simp [Service.lapse], by simp [Service.lapse], by simp [Service.lapse], by
     simp [Service.lapse],
      by simp [Service.lapse]⟩⟩

/-- Normalizing a record adds it with another lifetime, or leaves it out as a duplicate. -/
theorem addNormalized_cases (lease : UInt32) (p : LeasePolicy) (out : List Record) (r : Record) :
    addNormalized lease p out r = out ∨
      ∃ ttl, addNormalized lease p out r = out ++ [{ r with ttl := ttl }] := by
  unfold addNormalized
  simp only
  split
  · exact .inl rfl
  · exact .inr ⟨_, rfl⟩

/-- A normalised list is one of records that differ from given ones in their lifetime only, and is
no longer. -/
theorem normalized_spec (records : List Record) (lease : UInt32) (p : LeasePolicy) :
    (∀ x ∈ normalized records lease p, ∃ r ∈ records, ∃ ttl, x = { r with ttl := ttl }) ∧
      (normalized records lease p).length ≤ records.length := by
  have key : ∀ (l out : List Record), (∀ x ∈ out, ∃ r ∈ records, ∃ ttl, x = { r with ttl := ttl }) →
      (∀ r ∈ l, r ∈ records) →
      (∀ x ∈ l.foldl (addNormalized lease p) out, ∃ r ∈ records, ∃ ttl, x = { r with ttl := ttl }) ∧
      (l.foldl (addNormalized lease p) out).length ≤ out.length + l.length := by
    intro l
    induction l with
    | nil => exact fun out ho _ => ⟨ho, Nat.le_refl _⟩
    | cons r l ih =>
      intro out ho hl
      have hl' := fun x hx => hl x (List.mem_cons_of_mem _ hx)
      rw [List.foldl_cons, List.length_cons]
      rcases addNormalized_cases lease p out r with h | ⟨ttl, h⟩
      · obtain ⟨h₁, h₂⟩ := ih out ho hl'
        rw [h]
        exact ⟨h₁, by omega⟩
      · obtain ⟨h₁, h₂⟩ := ih (out ++ [{ r with ttl := ttl }]) (fun x hx => by
          rcases List.mem_append.1 hx with hx | hx
          · exact ho x hx
          · exact ⟨r, hl r List.mem_cons_self, _, List.mem_singleton.1 hx⟩) hl'
        rw [h]
        refine ⟨h₁, ?_⟩
        simp only [List.length_append, List.length_cons, List.length_nil] at h₂
        omega
  obtain ⟨h₁, h₂⟩ := key records [] (by simp) fun _ h => h
  rw [List.length_nil, Nat.zero_add] at h₂
  exact ⟨h₁, h₂⟩

/-- Records keep their owner and kind when they are normalized. -/
theorem RecordAt.normalized {n : Name} {kinds : List UInt16} {records : List Record}
    {lease : UInt32} {p : LeasePolicy} (h : ∀ r ∈ records, RecordAt n kinds r) :
    ∀ r ∈ normalized records lease p, RecordAt n kinds r := by
  intro x hx
  obtain ⟨r, hr, ttl, rfl⟩ := (normalized_spec records lease p).1 x hx
  exact ⟨(h r hr).name, (h r hr).kind, (h r hr).cls, (h r hr).fits⟩

/-- Pointers keep their target when they are normalized. -/
theorem PointsTo.normalized {n : Name} {records : List Record} {lease : UInt32} {p : LeasePolicy}
    (h : ∀ r ∈ records, PointsTo n r) : ∀ r ∈ normalized records lease p, PointsTo n r := by
  intro x hx
  obtain ⟨r, hr, ttl, rfl⟩ := (normalized_spec records lease p).1 x hx
  exact ⟨(h r hr).kind, (h r hr).cls, (h r hr).data, (h r hr).fits⟩

/-- The records of a service stay in order when they are normalized. -/
theorem ServiceRecords.normalized {n host : Name} {records discovery : List Record} {lease : UInt32}
    {p : LeasePolicy} (h : ServiceRecords n host records discovery) :
    ServiceRecords n host (normalized records lease p) (normalized discovery lease p) := by
  refine ⟨RecordAt.normalized h.kinds, fun x hx => ?_, PointsTo.normalized h.pointers,
    (normalized_spec _ _ _).2.trans h.count, (normalized_spec _ _ _).2.trans h.pointerCount⟩
  obtain ⟨r, hr, ttl, rfl⟩ := (normalized_spec records lease p).1 x hx
  exact h.targets r hr

namespace Registry

/-- Updates come from a validator that looks names up in the registry they are applied to. -/
def Verified (c : Crypto) (r : Registry) : Op → Prop
  | .apply now u _ _ _ => ∃ zones v bytes clock budget, Validator.new zones = .ok v ∧
      (v.verify c bytes clock budget fun n => r.key n now).1 = .ok u
  | _ => True

/-- A reply between updates. -/
structure ReplyKept (now : Nat) (x : Receipt) : Prop where
  ordered : x.grant.lease ≤ x.grant.keyLease
  expires : (x.expires : Int) ≤ x.receivedAt + 30000
  received : x.receivedAt ≤ now

/-- What every run keeps. -/
structure Kept (r : Registry) (now : Nat) : Prop where
  hosts : ∀ e ∈ r.hosts.entries, HostOk now e.1 e.2
  services : ∀ e ∈ r.services.entries, ServiceOk now e.1 e.2
  replies : ∀ e ∈ r.replies.entries, ReplyKept now e.2

/-! ## Steps -/

/-- What every run keeps includes that the entries are in order. -/
theorem Kept.entriesOk {r : Registry} {now : Nat} (h : r.Kept now) : r.EntriesOk now :=
  ⟨h.hosts, h.services⟩

/-- Entries that are in order stay so as time passes. -/
theorem EntriesOk.later {r : Registry} {now t : Nat} (h : r.EntriesOk now) (hle : now ≤ t) :
    r.EntriesOk t :=
  ⟨fun e he => (h.hosts e he).later hle, fun e he => (h.services e he).later hle⟩

/-- What was kept stays kept as time passes. -/
theorem Kept.later {r : Registry} {now t : Nat} (h : r.Kept now) (hle : now ≤ t) : r.Kept t := by
  obtain ⟨hhosts, hservices⟩ := h.entriesOk.later hle
  exact ⟨hhosts, hservices, fun e he => ⟨(h.replies e he).ordered, (h.replies e he).expires,
    by have := (h.replies e he).received; omega⟩⟩

/-- A host after expiry is a host whose key lease lives, with what of it expired left out. -/
theorem mem_expire_hosts {r : Registry} {t : Nat} {e : Name × Host}
    (he : e ∈ (r.expire t).hosts.entries) :
    ∃ h, (e.1, h) ∈ r.hosts.entries ∧ t < h.keyExpires ∧ e.2 = h.expire t := by
  obtain ⟨h, hm, he⟩ := OrdMap.mem_entries_mapValues.1 he
  obtain ⟨hm, hl⟩ := OrdMap.mem_entries_retain.1 hm
  exact ⟨h, hm, of_decide_eq_true hl, he⟩

/-- A service after expiry is a service whose key lease lives, lapsed or not. -/
theorem mem_expire_services {r : Registry} {t : Nat} {e : Name × Service}
    (he : e ∈ (r.expire t).services.entries) :
    ∃ s, (e.1, s) ∈ r.services.entries ∧ t < s.keyExpires ∧ (e.2 = s ∨ e.2 = s.lapse) := by
  obtain ⟨s, hm, he⟩ := OrdMap.mem_entries_mapValues.1 he
  obtain ⟨hm, hl⟩ := OrdMap.mem_entries_retain.1 hm
  refine ⟨s, hm, of_decide_eq_true hl, ?_⟩
  rw [he]
  split
  · exact .inr rfl
  · exact .inl rfl

/-- Expiry leaves the entries in order. The hosts and services that stay are those before, some of
them without their records. -/
theorem EntriesOk.expire {r : Registry} {now : Nat} (h : r.EntriesOk now) (t : Nat) :
    (r.expire t).EntriesOk now := by
  refine ⟨fun e he => ?_, fun e he => ?_⟩
  · obtain ⟨x, hm, -, he⟩ := mem_expire_hosts he
    rw [he]
    exact (h.hosts _ hm).expire
  · obtain ⟨x, hm, -, he⟩ := mem_expire_services he
    rcases he with he | he
    · rw [he]
      exact h.services _ hm
    · rw [he]
      exact (h.services _ hm).lapse

/-- Expiry keeps what every run keeps. -/
theorem Kept.expire {r : Registry} {now : Nat} (h : r.Kept now) (t : Nat) :
    (r.expire t).Kept now := by
  obtain ⟨hhosts, hservices⟩ := h.entriesOk.expire t
  exact ⟨hhosts, hservices, fun e he => h.replies e (OrdMap.mem_entries_retain.1 he).1⟩

/-- No record lease is granted for longer than the key lease. The update is refused otherwise. -/
theorem admits_grant {r : Registry} {u : Update} {now : Nat} {g : Grant}
    (h : r.admits u now = .ok g) : g.lease.toNat ≤ g.keyLease.toNat := by
  unfold admits at h
  split at h
  · exact absurd h (by simp)
  · simp only at h
    split at h
    · exact absurd h (by simp)
    · next hlt =>
      split at h
      · exact absurd h (by simp)
      · obtain rfl := Except.ok.inj h
        exact UInt32.le_iff_toNat_le.1 (UInt32.not_lt.1 hlt)

/-- The ends of granted leases are in order, and no later than leases may end. -/
theorem leaseEnd_ok {now : Nat} {g : Grant} (hg : g.lease.toNat ≤ g.keyLease.toNat) :
    LeasesOk now (leaseEnd now g.lease) (leaseEnd now g.keyLease) := by
  unfold leaseEnd
  refine ⟨satAdd_mono (Nat.mul_le_mul_right 1000 hg), ?_⟩
  have hmax : g.keyLease.toNat ≤ 4294967295 := Nat.le_of_lt_succ g.keyLease.toNat_lt
  exact (satAdd_le _ _).trans (Nat.add_le_add_left (Nat.mul_le_mul_right 1000 hmax) now)

/-- The entry that a verified update makes of its host is in order. -/
theorem hostOf_ok {r : Registry} {u : Update} {g : Grant} {now : Nat} (hu : u.Ok)
    (hg : g.lease.toNat ≤ g.keyLease.toNat) : HostOk now u.host (hostOf r u g now) := by
  have hl : LeasesOk now (leaseEnd now g.lease) (leaseEnd now g.keyLease) := leaseEnd_ok hg
  refine ⟨hu.host, hu.key, ⟨?_, hl.bounded⟩, RecordAt.normalized hu.addresses,
    (normalized_spec _ _ _).2.trans hu.count⟩
  show (if g.lease = 0 then 0 else leaseEnd now g.lease) ≤ leaseEnd now g.keyLease
  split
  · exact Nat.zero_le _
  · exact hl.ordered

/-- The entry that a verified update makes of one of its services is in order. -/
theorem serviceOf_ok {r : Registry} {u : Update} {g : Grant} {now : Nat} {s : ServiceUpdate}
    (hu : u.Ok) (hs : s ∈ u.services) (hg : g.lease.toNat ≤ g.keyLease.toNat) :
    ServiceOk now s.name (serviceOf r u g now s) := by
  have hl : LeasesOk now (leaseEnd now g.lease) (leaseEnd now g.keyLease) := leaseEnd_ok hg
  refine ⟨hu.names s hs, hu.host, hu.key, ⟨?_, hl.bounded⟩, (hu.services s hs).normalized⟩
  show (if s.deleted = false ∧ g.lease ≠ 0 then leaseEnd now g.lease else 0) ≤
    leaseEnd now g.keyLease
  split
  · exact hl.ordered
  · exact Nat.zero_le _

/-- The replies after an update: those that were there, and its own. -/
theorem mem_remember {m : OrdMap (Octets 32) Receipt} {d : Octets 32} {g : Grant} {now : Nat}
    {e : Octets 32 × Receipt} (h : e ∈ (remember m d g now).entries) :
    e ∈ m.entries ∨ e.2 = ⟨g, now, satAdd now 30000⟩ := by
  unfold remember at h
  rcases OrdMap.mem_entries_insert h with ⟨h, -⟩ | ⟨-, h⟩
  · split at h
    · split at h
      · exact .inl (OrdMap.mem_entries_remove.1 h).1
      · exact .inl h
    · exact .inl h
  · exact .inr h

/-- A reply in the next registry is an earlier one, or the one to this update. -/
theorem mem_next_replies {r : Registry} {u : Update} {g : Grant} {now : Nat}
    {e : Octets 32 × Receipt} (he : e ∈ (r.next u g now).replies.entries) :
    e ∈ (r.expire now).replies.entries ∨ e.2 = ⟨g, now, satAdd now 30000⟩ := by
  refine mem_remember (m := (r.expire now).replies) (d := u.digest) ?_
  unfold next at he
  split at he <;> exact he

/-- A committed update keeps what the journal's reader checks of hosts and services. The new entries
come from a verified update, and the others from an expiry. -/
theorem EntriesOk.next {r : Registry} {u : Update} {g : Grant} {now : Nat} (h : r.EntriesOk now)
    (hu : u.Ok) (ha : r.admits u now = .ok g) : (r.next u g now).EntriesOk now := by
  have hg := admits_grant ha
  have hlive := h.expire now
  refine ⟨fun e he => ?_, fun e he => ?_⟩
  · rcases next_host (OrdMap.get_of_mem (k := e.1) he) with ⟨hn, -, hh⟩ | ⟨-, hh⟩
    · rw [hh]
      exact (hostOf_ok hu hg).congr hn
    · obtain ⟨k, hk, hm⟩ := OrdMap.get_eq_some_iff.1 hh
      exact (hlive.hosts _ hm).congr hk
  · rcases next_service (OrdMap.get_of_mem (k := e.1) he) with ⟨x, hx, hn, -, hs⟩ | ⟨s₀, hs₀, hs⟩
    · rw [hs]
      exact (serviceOf_ok hu hx hg).congr hn
    · obtain ⟨k, hk, hm⟩ := OrdMap.get_eq_some_iff.1 hs₀
      have hok := (hlive.services _ hm).congr hk
      rcases hs with hs | ⟨-, -, hs⟩
      · rw [hs]
        exact hok
      · rw [hs]
        exact hok.lapse

/-- A committed update keeps what the journal's reader checks. -/
theorem Kept.next {r : Registry} {u : Update} {g : Grant} {now : Nat} (h : r.Kept now) (hu : u.Ok)
    (ha : r.admits u now = .ok g) : (r.next u g now).Kept now := by
  obtain ⟨hhosts, hservices⟩ := EntriesOk.next h.entriesOk hu ha
  refine ⟨hhosts, hservices, fun e he => ?_⟩
  rcases mem_next_replies he with he | he
  · exact (h.expire now).replies e he
  · rw [he]
    refine ⟨UInt32.le_iff_toNat_le.2 (admits_grant ha), ?_, Int.le_refl _⟩
    have := satAdd_le now 30000
    show ((satAdd now 30000 : Nat) : Int) ≤ (now : Int) + 30000
    omega

/-- Keys that the registry returns are keys that the journal accepts. -/
theorem EntriesOk.key {r : Registry} {now t : Nat} (h : r.EntriesOk now) {n : Name} {k : Key}
    (hk : r.key n t = some k) : k.Ok := by
  rw [key_eq_claim] at hk
  obtain ⟨⟨k', e⟩, hc, rfl⟩ := Option.map_eq_some_iff.1 hk
  rcases claim_eq_some.1 hc with hc | ⟨-, hc⟩
  · obtain ⟨x, hx, -, rfl, -⟩ := hostClaim_eq_some.1 hc
    obtain ⟨n', -, hm⟩ := OrdMap.get_eq_some_iff.1 hx
    exact (h.hosts _ hm).key
  · obtain ⟨x, hx, -, rfl, -⟩ := serviceClaim_eq_some.1 hc
    obtain ⟨n', -, hm⟩ := OrdMap.get_eq_some_iff.1 hx
    exact (h.services _ hm).key

/-- A verified update carries what `verify` guarantees, if the keys of the registry are in order. -/
theorem Verified.ok {c : Crypto} {r : Registry} {now t wall : Nat} {u : Update}
    {save : Bytes → Bool} {accept : Registry → Except Error Unit} (hk : r.EntriesOk t)
    (h : Verified c r (.apply now u save wall accept)) : u.Ok := by
  obtain ⟨zones, v, bytes, clock, budget, hv, hu⟩ := h
  exact Validator.verify_ok (Validator.new_ok hv) (fun n k hn => hk.key hn) hu

/-- One step keeps what the reader of the journal checks. Only a committed update enters anything,
by `Kept.next`. -/
theorem Kept.step {c : Crypto} {r : Registry} {t : Nat} (hk : r.Kept t) (o : Op) (hle : t ≤ o.now)
    (hl : Verified c r o) : (r.step c o).1.Kept o.now := by
  have hk := hk.later hle
  have h := step_cases c r o
  generalize r.step c o = x at h
  cases h with
  | kept => exact hk
  | committed admitted => exact Kept.next hk (Verified.ok hk.entriesOk hl) admitted
  | expired now => exact hk.expire now
  | policy => exact ⟨hk.hosts, hk.services, hk.replies⟩

/-- The registry of every run keeps what the reader of the journal checks. -/
theorem run_kept {c : Crypto} {t₀ t : Nat} {es : List (Op × Answer)} {r : Registry}
    (run : (machine c (Verified c)).Run .default t₀ es r t) : r.Kept t :=
  run.invariant (I := fun r t => r.Kept t)
    ⟨by simp [default], by simp [default], by simp [default]⟩
    fun _ _ o hk hle hl => hk.step o hle hl

/-- A committed registry can be stored. What the reader checks is kept (`Kept.next`), the receipts
are recent, and the bounds were tested. -/
theorem Kept.storable {r : Registry} {u : Update} {g : Grant} {now : Nat} (h : r.Kept now)
    (hu : u.Ok) (ha : r.admits u now = .ok g) (hb : (r.next u g now).checkBounds = true) :
    (r.next u g now).Storable now := by
  have hk := Kept.next h hu ha
  refine ⟨hk.hosts, hk.services, fun e he => ?_, hb⟩
  obtain ⟨hord, hexp, hrec⟩ := hk.replies e he
  have hlive : (now : Int) ≤ e.2.receivedAt + 30000 := by
    rcases mem_next_replies he with he | he
    · have := of_decide_eq_true (OrdMap.mem_entries_retain.1 he).2
      omega
    · rw [he]
      show (now : Int) ≤ (now : Int) + 30000
      omega
  exact ⟨hord, by omega, hlive⟩

/-! ## What a restart keeps -/

/-- The lease ends of a registry, moved to a new clock, stay below 2^64. -/
structure DeadlinesFit (r : Registry) (now now₂ : Nat) : Prop where
  hosts : ∀ e ∈ r.hosts.entries, now₂ + (e.2.keyExpires - now) ≤ u64Max
  services : ∀ e ∈ r.services.entries, now₂ + (e.2.keyExpires - now) ≤ u64Max
  replies : ∀ e ∈ r.replies.entries, now₂ + (e.2.expires - now) ≤ u64Max

instance (r : Registry) (now now₂ : Nat) : Decidable (r.DeadlinesFit now now₂) :=
  decidable_of_iff ((∀ e ∈ r.hosts.entries, now₂ + (e.2.keyExpires - now) ≤ u64Max) ∧
      (∀ e ∈ r.services.entries, now₂ + (e.2.keyExpires - now) ≤ u64Max) ∧
      ∀ e ∈ r.replies.entries, now₂ + (e.2.expires - now) ≤ u64Max)
    ⟨fun h => ⟨h.1, h.2.1, h.2.2⟩, fun h => ⟨h.1, h.2, h.3⟩⟩

/-- The registry after a restart: the entries whose key leases outlast the time away, each with the
rest of its leases, and its records if the record leases outlast that time. -/
structure Restarted (r : Registry) (now elapsed now₂ : Nat) (r₂ : Registry) : Prop where
  host : ∀ n h, r.hosts.get n = some h → elapsed < h.keyExpires - now →
    ∃ x, r₂.hosts.get n = some x ∧ x.key = h.key ∧
      x.keyExpires = now₂ + (h.keyExpires - now) - elapsed ∧
      if elapsed < h.expires - now
      then x.addresses = h.addresses ∧ x.expires = now₂ + (h.expires - now) - elapsed
      else x.addresses = [] ∧ x.expires = 0
  hostOnly : ∀ n x, r₂.hosts.get n = some x →
    ∃ h, r.hosts.get n = some h ∧ elapsed < h.keyExpires - now
  service : ∀ n s, r.services.get n = some s → elapsed < s.keyExpires - now →
    ∃ x, r₂.services.get n = some x ∧ x.key = s.key ∧ (x.host == s.host) = true ∧
      x.keyExpires = now₂ + (s.keyExpires - now) - elapsed ∧
      if elapsed < s.expires - now ∧ ∃ h, r.hosts.get s.host = some h ∧ elapsed < h.expires - now ∧
        h.key.samePublicKey s.key = true
      then x.records = s.records ∧ x.discovery = s.discovery ∧
        x.expires = now₂ + (s.expires - now) - elapsed
      else x.records = [] ∧ x.discovery = [] ∧ x.expires = 0
  serviceOnly : ∀ n x, r₂.services.get n = some x →
    ∃ s, r.services.get n = some s ∧ elapsed < s.keyExpires - now
  reply : ∀ d x, r.replies.get d = some x → elapsed < x.expires - now →
    ∃ y, r₂.replies.get d = some y ∧ y.grant = x.grant ∧
      y.expires = now₂ + (x.expires - now) - elapsed
  replyOnly : ∀ d y, r₂.replies.get d = some y →
    ∃ x, r.replies.get d = some x ∧ elapsed < x.expires - now

/-- A lease end on the new clock. -/
theorem deadline_eq (away : Nat) {now₂ remaining : Nat} (h : now₂ + remaining ≤ u64Max) :
    Journal.Restart.deadline ⟨now₂, satMul away 1000⟩ remaining =
      if away * 1000 < remaining then now₂ + remaining - away * 1000 else 0 := by
  unfold Journal.Restart.deadline satMul
  have hle : remaining ≤ min (away * 1000) u64Max ↔ ¬ away * 1000 < remaining := by omega
  simp only [hle, ite_not]
  split
  · rw [satAdd_eq (by omega)]
    omega
  · rfl

/-- A lease end is ahead on the new clock when the lease outlasts the time away. -/
theorem lt_deadline (away : Nat) {now₂ remaining : Nat} (h : now₂ + remaining ≤ u64Max) :
    now₂ < Journal.Restart.deadline ⟨now₂, satMul away 1000⟩ remaining ↔
    away * 1000 < remaining := by
  rw [deadline_eq away h]
  split <;> omega

section Image

variable {r : Registry} {now now₂ : Nat} (away : Nat)

/-- The hosts of the image are the images of the hosts. -/
theorem image_hosts_get (t : Journal.Restart) (r : Registry) (now : Nat) (n : Name) :
    (Journal.image t now r).hosts.get n = (r.hosts.get n).map (Journal.hostImage t now) :=
  r.hosts.get_mapEntries (fun e => e.1.sameKey_lower) (fun _ => rfl) n

/-- The services of the image are the images of the services. -/
theorem image_services_get (t : Journal.Restart) (r : Registry) (now : Nat) (n : Name) :
    (Journal.image t now r).services.get n = (r.services.get n).map (Journal.serviceImage t now) :=
  r.services.get_mapEntries (fun e => e.1.sameKey_lower) (fun _ => rfl) n

/-- The replies of the image are the images of the replies. -/
theorem image_replies_get (t : Journal.Restart) (r : Registry) (now : Nat) (d : Octets 32) :
    (Journal.image t now r).replies.get d = (r.replies.get d).map (Journal.replyImage t now) :=
  r.replies.get_mapEntries (f := fun e => (e.1, Journal.replyImage t now e.2)) (fun _ => rfl)
    (fun _ => rfl) d

/-- The key lease of a host fits the new clock. -/
theorem DeadlinesFit.host (hfit : r.DeadlinesFit now now₂) {n : Name} {h : Host}
    (hh : r.hosts.get n = some h) : now₂ + (h.keyExpires - now) ≤ u64Max := by
  obtain ⟨k, -, hm⟩ := OrdMap.get_eq_some_iff.1 hh
  exact hfit.hosts _ hm

/-- The key lease of a service fits the new clock. -/
theorem DeadlinesFit.service (hfit : r.DeadlinesFit now now₂) {n : Name} {s : Service}
    (hs : r.services.get n = some s) : now₂ + (s.keyExpires - now) ≤ u64Max := by
  obtain ⟨k, -, hm⟩ := OrdMap.get_eq_some_iff.1 hs
  exact hfit.services _ hm

/-- The lifetime of a reply fits the new clock. -/
theorem DeadlinesFit.reply (hfit : r.DeadlinesFit now now₂) {d : Octets 32} {x : Receipt}
    (hx : r.replies.get d = some x) : now₂ + (x.expires - now) ≤ u64Max :=
  hfit.replies _ (OrdMap.mem_iff_get.2 hx)

/-- The record lease of a host ends no later than its key lease. -/
theorem Storable.hostLeases (hr : r.Storable now) {n : Name} {h : Host}
    (hh : r.hosts.get n = some h) : h.expires ≤ h.keyExpires := by
  obtain ⟨k, -, hm⟩ := OrdMap.get_eq_some_iff.1 hh
  exact (hr.hosts _ hm).leases.ordered

/-- The record lease of a service ends no later than its key lease. -/
theorem Storable.serviceLeases (hr : r.Storable now) {n : Name} {s : Service}
    (hs : r.services.get n = some s) : s.expires ≤ s.keyExpires := by
  obtain ⟨k, -, hm⟩ := OrdMap.get_eq_some_iff.1 hs
  exact (hr.services _ hm).leases.ordered

/-- The hosts of the image at the new clock: those whose key lease outlasts the time away. -/
theorem image_expire_host (hfit : r.DeadlinesFit now now₂) {n : Name} {h : Host}
    (hh : r.hosts.get n = some h) :
    ((Journal.image ⟨now₂, satMul away 1000⟩ now r).expire now₂).hosts.get n =
      if away * 1000 < h.keyExpires - now
      then some ((Journal.hostImage ⟨now₂, satMul away 1000⟩ now h).expire now₂) else none := by
  rw [expire_hosts_get, image_hosts_get, hh, Option.map_some]
  have hlt := lt_deadline away (hfit.host hh)
  by_cases hl : away * 1000 < h.keyExpires - now
  · simp [Option.filter, Journal.hostImage, hlt, hl]
  · simp [Option.filter, Journal.hostImage, hlt, hl]

/-- The records of a host's image stay while the record lease outlasts the time away. Its deadline
in the image is counted from the new clock, so the comparison is one of differences. -/
theorem hostImage_expire {h : Host} (hfit : now₂ + (h.expires - now) ≤ u64Max) :
    ((Journal.hostImage ⟨now₂, satMul away 1000⟩ now h).expire now₂).addresses =
        (if away * 1000 < h.expires - now then h.addresses else []) ∧
      ((Journal.hostImage ⟨now₂, satMul away 1000⟩ now h).expire now₂).expires =
        if away * 1000 < h.expires - now then now₂ + (h.expires - now) - away * 1000 else 0 := by
  have hlt := lt_deadline away hfit
  have heq := deadline_eq away hfit
  set x := Journal.hostImage ⟨now₂, satMul away 1000⟩ now h with hx
  have hexp : x.expires = Journal.Restart.deadline ⟨now₂, satMul away 1000⟩ (h.expires - now) := rfl
  rw [← hexp] at hlt heq
  unfold Host.expire
  by_cases hl : away * 1000 < h.expires - now
  · rw [if_neg (Nat.not_le.2 (hlt.2 hl)), if_pos hl]
    exact ⟨rfl, heq⟩
  · rw [if_pos (Nat.not_lt.1 fun h' => hl (hlt.1 h')), if_neg hl, if_neg hl]
    exact ⟨rfl, rfl⟩

/-- Whether a service finds its live host in the image. The host is stored under its lower-case name
and with its deadlines counted from the new clock, so both comparisons are those of the old
registry. -/
theorem image_host_live (hfit : r.DeadlinesFit now now₂) (hr : r.Storable now) (s : Service) :
    ((((Journal.image ⟨now₂, satMul away 1000⟩ now r).expire now₂).hosts.get s.host.lower).any
     fun h =>
      decide (h.expires > now₂) && h.key.samePublicKey s.key) = true ↔
    ∃ h, r.hosts.get s.host = some h ∧ away * 1000 < h.expires - now ∧
      h.key.samePublicKey s.key = true := by
  rw [OrdMap.get_congr _ s.host.sameKey_lower]
  cases hh : r.hosts.get s.host with
  | none =>
    rw [expire_hosts_get, image_hosts_get, hh]
    simp
  | some h =>
    have hord := hr.hostLeases hh
    have hkey := hfit.host hh
    have hrec : now₂ + (h.expires - now) ≤ u64Max := by omega
    have hexp := (hostImage_expire away hrec).2
    rw [image_expire_host away hfit hh]
    by_cases hl : away * 1000 < h.keyExpires - now
    · rw [if_pos hl, Option.any_some, hexp, Host.expire_key]
      by_cases hr : away * 1000 < h.expires - now
      · have : now₂ < now₂ + (h.expires - now) - away * 1000 := by omega
        simp [hr, this, Journal.hostImage]
      · simp [hr]
    · rw [if_neg hl]
      simp only [Option.any_none, Bool.false_eq_true, false_iff]
      rintro ⟨x, hx, hlt, -⟩
      obtain rfl := Option.some.inj hx
      omega

/-- The services of the image at the new clock. One is removed if its key lease ran out while the
registry was away, and lapses if its lease did or its host has gone. -/
theorem image_expire_service (hfit : r.DeadlinesFit now now₂) (hr : r.Storable now) {n : Name}
    {s : Service} (hs : r.services.get n = some s) :
    ((Journal.image ⟨now₂, satMul away 1000⟩ now r).expire now₂).services.get n =
      if away * 1000 < s.keyExpires - now then
        if away * 1000 < s.expires - now ∧ ∃ h, r.hosts.get s.host = some h ∧
          away * 1000 < h.expires - now ∧ h.key.samePublicKey s.key = true
        then some (Journal.serviceImage ⟨now₂, satMul away 1000⟩ now s)
        else some (Journal.serviceImage ⟨now₂, satMul away 1000⟩ now s).lapse
      else none := by
  have hord := hr.serviceLeases hs
  have hkey := hfit.service hs
  have hrec : now₂ + (s.expires - now) ≤ u64Max := by omega
  have hlt := lt_deadline away hkey
  have hlt' := lt_deadline away hrec
  have hlive := image_host_live away hfit hr s
  rw [expire_services_get, image_services_get, hs, Option.map_some]
  by_cases hl : away * 1000 < s.keyExpires - now
  · simp only [Option.filter, Journal.serviceImage, gt_iff_lt, hlt, hl, decide_true, if_true,
      Option.map_some]
    by_cases hc : away * 1000 < s.expires - now ∧ ∃ h, r.hosts.get s.host = some h ∧
      away * 1000 < h.expires - now ∧ h.key.samePublicKey s.key = true
    · rw [if_pos hc, if_neg]
      rintro (he | he)
      · exact Nat.not_le.2 (hlt'.2 hc.1) he
      · exact Bool.false_ne_true (he.symm.trans (hlive.2 hc.2))
    · rw [if_neg hc, if_pos]
      by_cases he : away * 1000 < s.expires - now
      · exact .inr (Bool.eq_false_iff.2 fun ht => hc ⟨he, hlive.1 ht⟩)
      · exact .inl (Nat.not_lt.1 fun h' => he (hlt'.1 h'))
  · simp [Option.filter, Journal.serviceImage, hlt, hl]

/-- The replies of the image at the new clock. -/
theorem image_expire_reply (hfit : r.DeadlinesFit now now₂) {d : Octets 32} {x : Receipt}
    (hx : r.replies.get d = some x) :
    ((Journal.image ⟨now₂, satMul away 1000⟩ now r).expire now₂).replies.get d =
      if away * 1000 < x.expires - now
      then some (Journal.replyImage ⟨now₂, satMul away 1000⟩ now x) else none := by
  have hlt := lt_deadline away (hfit.reply hx)
  simp only [expire, OrdMap.get_retain_values, image_replies_get, hx, Option.map_some]
  by_cases hl : away * 1000 < x.expires - now
  · simp [Option.filter, Journal.replyImage, hlt, hl]
  · simp [Option.filter, Journal.replyImage, hlt, hl]

/-- The journal's image at the new clock is what a restart keeps. Each clause of `Restarted` follows
entry by entry: the ends of its leases are moved by the time that has passed, and what that ends is
dropped or emptied. -/
theorem restarted_image (hfit : r.DeadlinesFit now now₂) (hr : r.Storable now) :
    Restarted r now (away * 1000) now₂
      ((Journal.image ⟨now₂, satMul away 1000⟩ now r).expire now₂) := by
  refine ⟨fun n h hh hl => ?_, fun n x hx => ?_, fun n s hs hl => ?_, fun n x hx => ?_,
    fun d x hx hl => ?_, fun d y hy => ?_⟩
  · have hord := hr.hostLeases hh
    have hkey := hfit.host hh
    have hrec : now₂ + (h.expires - now) ≤ u64Max := by omega
    obtain ⟨haddr, hexp⟩ := hostImage_expire away hrec
    refine ⟨_, (image_expire_host away hfit hh).trans (if_pos hl), Host.expire_key _ _, ?_, ?_⟩
    · rw [Host.expire_keyExpires]
      exact (deadline_eq away hkey).trans (if_pos hl)
    · rw [haddr, hexp]
      split <;> exact ⟨rfl, rfl⟩
  · cases hh : r.hosts.get n with
    | none =>
      rw [expire_hosts_get, image_hosts_get, hh] at hx
      simp at hx
    | some h =>
      rw [image_expire_host away hfit hh] at hx
      exact ⟨h, rfl, (Option.ite_none_right_eq_some.1 hx).1⟩
  · have hord := hr.serviceLeases hs
    have hkey := hfit.service hs
    have hrec : now₂ + (s.expires - now) ≤ u64Max := by omega
    have hget := (image_expire_service away hfit hr hs).trans (if_pos hl)
    have hdead := (deadline_eq away hkey).trans (if_pos hl)
    have hhost : (s.host.lower == s.host) = true := Name.beq_iff_sameKey.2 s.host.sameKey_lower
    split at hget
    · next hc =>
      refine ⟨_, hget, rfl, hhost, hdead, ?_⟩
      rw [if_pos hc]
      exact ⟨rfl, rfl, (deadline_eq away hrec).trans (if_pos hc.1)⟩
    · next hc =>
      refine ⟨_, hget, rfl, hhost, hdead, ?_⟩
      rw [if_neg hc]
      exact ⟨rfl, rfl, rfl⟩
  · cases hs : r.services.get n with
    | none =>
      rw [expire_services_get, image_services_get, hs] at hx
      simp at hx
    | some s =>
      rw [image_expire_service away hfit hr hs] at hx
      exact ⟨s, rfl, (Option.ite_none_right_eq_some.1 hx).1⟩
  · refine ⟨_, (image_expire_reply away hfit hx).trans (if_pos hl), rfl, ?_⟩
    exact (deadline_eq away (hfit.reply hx)).trans (if_pos hl)
  · cases hx : r.replies.get d with
    | none =>
      simp only [expire, OrdMap.get_retain_values, image_replies_get, hx] at hy
      simp at hy
    | some x =>
      rw [image_expire_reply away hfit hx] at hy
      exact ⟨x, rfl, (Option.ite_none_right_eq_some.1 hy).1⟩

end Image

/-- An update that was saved was admitted; the registry is the next one, within its bounds, and the
store was given its journal. -/
theorem applyChecked_saved {c : Crypto} {r r' : Registry} {u : Update} {save : Bytes → Bool}
    {now wall : Nat} {accept : Registry → Except Error Unit} {g : Grant} {bytes : Bytes}
    (h : r.applyChecked c u save now wall accept = ⟨.ok g, r', some bytes⟩) :
    r.admits u now = .ok g ∧ r' = r.next u g now ∧ r'.checkBounds = true ∧
      Journal.encode c r' now wall = some bytes := by
  unfold applyChecked at h
  split at h
  · cases h
  · split at h
    · cases h
    · next g' ha =>
      simp only at h
      split at h
      · cases h
      · next hb =>
        split at h
        · cases h
        · split at h
          · cases h
          · next bytes' he =>
            split at h
            · cases h
              exact ⟨ha, rfl, by simpa using hb, he⟩
            · cases h

/-- The journal of every successful update of every run can be read at any later time, and what is
read is what a restart keeps. -/
theorem restart {c : Crypto} (hpublic : ∀ a k, c.validPublic a k = true) {t₀ t : Nat}
    {es : List (Op × Answer)} {r₀ : Registry}
    (run : (machine c (Verified c)).Run .default t₀ es r₀ t) {now wall : Nat} {u : Update}
    {save : Bytes → Bool} {accept : Registry → Except Error Unit} (hle : t ≤ now)
    (hu : Verified c r₀ (.apply now u save wall accept)) (hwall : wall ≤ u64Max)
    {g : Grant} {r : Registry} {bytes : Bytes}
    (happly : r₀.applyChecked c u save now wall accept = ⟨.ok g, r, some bytes⟩)
    {now₂ wall₂ : Nat} (hfit : r.DeadlinesFit now now₂) :
    ∃ r₂, Registry.restore c bytes now₂ wall₂ = some r₂ ∧
      Restarted r now ((wall₂ - wall) * 1000) now₂ r₂ := by
  have hk := (run_kept run).later hle
  obtain ⟨ha, rfl, hbounds, hencode⟩ := applyChecked_saved happly
  have hstore := hk.storable (hu.ok hk.entriesOk) ha hbounds
  refine ⟨_, ?_, restarted_image (wall₂ - wall) hfit hstore⟩
  exact Journal.decode_encode hpublic hstore (Nat.lt_succ_of_le hwall) hencode now₂ wall₂

/-- A record of a message, without compression. -/
def resourceRecord (n : Name) (kind cls ttl : Nat) (data : Bytes) : Bytes :=
  n.canonical ++ toBe 2 kind ++ toBe 2 cls ++ toBe 4 ttl ++ toBe 2 data.length ++ data

/-- The Ed25519 public key of the sample update. -/
def samplePublicKey : Bytes :=
  [3, 161, 7, 191, 243, 206, 16, 190, 29, 112, 221, 24, 231, 75, 192, 153, 103, 228, 214, 48, 155,
    165, 13, 95, 29, 220, 134, 100, 18, 85, 49, 184]

/-- The signature of the sample update under `samplePublicKey`. -/
def sampleSignature : Bytes :=
  [133, 43, 117, 32, 43, 25, 184, 135, 86, 159, 112, 204, 251, 7, 184, 102, 255, 167, 97, 145, 98,
    10, 160, 163, 20, 43, 206, 87, 112, 103, 196, 154, 135, 224, 82, 115, 25, 142, 196, 193, 123,
    22, 172, 1, 61, 139, 9, 50, 210, 26, 44, 107, 65, 83, 102, 77, 79, 177, 72, 117, 25, 255, 45, 7]

/-- A signed update that registers a host and one service of it, for an hour, and their names for
two. -/
def sampleUpdate : Bytes :=
  let type : Name := ⟨ascii "_ipp" :: ascii "_tcp" :: defaultZone.labels, by decide⟩
  let service : Name := ⟨ascii "a" :: type.labels, by decide⟩
  toBe 2 7 ++ toBe 2 0x2800 ++ toBe 2 1 ++ toBe 2 0 ++ toBe 2 7 ++ toBe 2 2 ++
    defaultZone.canonical ++ toBe 2 6 ++ toBe 2 1 ++
    resourceRecord printer 255 255 0 [] ++
    resourceRecord printer 28 1 3600 ([253] ++ List.replicate 14 0 ++ [1]) ++
    resourceRecord printer 25 1 3600 ([2, 0, 3, 15] ++ samplePublicKey) ++
    resourceRecord service 255 255 0 [] ++
    resourceRecord service 33 1 3600 (toBe 2 0 ++ toBe 2 0 ++ toBe 2 631 ++ printer.canonical) ++
    resourceRecord service 16 1 3600 [1, 120] ++
    resourceRecord type 12 1 3600 service.canonical ++
    resourceRecord .root 41 1232 0 (toBe 2 2 ++ toBe 2 8 ++ toBe 4 3600 ++ toBe 4 7200) ++
    resourceRecord .root 24 255 0 (toBe 2 0 ++ [15, 0] ++ toBe 4 0 ++ toBe 4 0 ++ toBe 4 0 ++
      toBe 2 34514 ++ printer.canonical ++ sampleSignature)

/-- Cryptographic functions that accept every signature; the fingerprint is that of the sample
update. -/
def sampleCrypto : Crypto where
  validPublic _ _ := true
  verify _ _ _ _ := true
  fingerprint _ := ⟨[230, 158, 225, 93, 164, 91, 187, 231, 212, 62, 227, 231,
    79, 205, 191, 123, 159, 186, 9, 128, 1, 240, 212, 107, 73, 117, 89, 185, 231, 23, 46, 212], rfl⟩
  sha1 _ := zeros 20

/-- What the validator of the default zone makes of the sample update. -/
def sampleVerified : Except Error Update :=
  (Validator.verify sampleCrypto ⟨[]⟩ sampleUpdate 0 1 fun n => Registry.default.key n 5000).1

/-- The sample update, its grant, the registry after it and the journal given to the store. -/
def sampleApplied : Option (Update × Grant × Registry × Bytes) :=
  match sampleVerified with
  | .error _ => none
  | .ok u =>
    match Registry.default.applyChecked sampleCrypto u (fun _ => true) 5000 100 fun _ => .ok () with
    | ⟨.ok g, r, some bytes⟩ => some (u, g, r, bytes)
    | _ => none

/-- The sample update is applied: it leaves one host and one service. -/
theorem sampleApplied_live : ∃ u g r bytes, sampleApplied = some (u, g, r, bytes) ∧
    r.hosts.size = 1 ∧ r.services.size = 1 ∧ r.DeadlinesFit 5000 9 := by
  have h : sampleApplied.any (fun x => decide (x.2.2.1.hosts.size = 1 ∧ x.2.2.1.services.size = 1 ∧
      x.2.2.1.DeadlinesFit 5000 9)) = true := by decide +kernel
  obtain ⟨⟨u, g, r, bytes⟩, hx, hd⟩ := (Option.any_eq_true _ _).1 h
  exact ⟨u, g, r, bytes, hx, of_decide_eq_true hd⟩

/-- The theorem applied to the sample update, which survives a restart ten seconds after it. -/
theorem restart_sampleUpdate : ∃ u g r bytes, sampleApplied = some (u, g, r, bytes) ∧
    r.hosts.size = 1 ∧ r.services.size = 1 ∧
    ∃ r₂, Registry.restore sampleCrypto bytes 9 110 = some r₂ ∧ Restarted r 5000 10000 9 r₂ := by
  obtain ⟨u, g, r, bytes, happlied, hhosts, hservices, hfit⟩ := sampleApplied_live
  refine ⟨u, g, r, bytes, happlied, hhosts, hservices, ?_⟩
  unfold sampleApplied at happlied
  split at happlied
  · cases happlied
  · next u' hu =>
    split at happlied
    · next g' r' bytes' happly =>
      cases happlied
      exact restart (c := sampleCrypto) (fun _ _ => rfl) (@Machine.Run.nil _ _ _ _ _ 0)
        (Nat.zero_le _)
        ⟨[], ⟨[]⟩, sampleUpdate, 0, 1, rfl, hu⟩ (by decide) happly hfit
    · cases happlied

end Registry

end SnacMachine.Srp
