import SnacMachine.Srp.Durability

/-!
# Deletions

What an acknowledged deletion does to the records that the registry returns, over the rest of the
run. A service is `ServiceGone` when its entry, if there is one, has nothing to return, and a host
is `HostGone` when its record lease is over; both stay so until an update names them
(`run_serviceGone`, `run_hostGone`), and the records of a run's registry then say nothing of the
service (`ServiceGone.silent`) and give no address of the host (`HostGone.silent`). An update that
gives up its key lease removes the services of its host only, whatever services it names, so
`takesEffect_iff` has the one exception of a service that lives under another host (`Stranded`).
-/

namespace SnacMachine.Srp

open Dns

/-- A service that has no records to return. -/
def Service.Bare (s : Service) : Prop := s.expires = 0 ∨ s.records = [] ∧ s.discovery = []

/-- Whether a record describes a service: its SRV or TXT record, or a PTR record to it. -/
def Describes (n : Name) (x : Record) : Prop :=
  ((x.kind = 33 ∨ x.kind = 16) ∧ (x.name == n) = true) ∨ (x.kind = 12 ∧ (x.data == .name n) = true)

/-- Whether a record is an address of a host. -/
def IsAddress (n : Name) (x : Record) : Prop := (x.kind = 1 ∨ x.kind = 28) ∧ (x.name == n) = true

/-- What a record describes depends on its owner, its type and its data only. Equal data of a
pointer is a pointer to the same name (`Rdata.eq_name_of_beq`). -/
theorem Describes.congr {n : Name} {x y : Record} (h : Describes n x)
    (hn : (x.name == y.name) = true) (hk : x.kind = y.kind) (hd : (x.data == y.data) = true) :
    Describes n y := by
  rcases h with ⟨hkind, hname⟩ | ⟨hkind, hdata⟩
  · exact .inl ⟨hk ▸ hkind, PartialEquivBEq.trans (PartialEquivBEq.symm hn) hname⟩
  · obtain ⟨z, hz, he⟩ := Rdata.eq_name_of_beq hdata
    rw [hz] at hd
    refine .inr ⟨hk ▸ hkind, ?_⟩
    cases hy : y.data with
    | name w =>
      rw [hy] at hd
      have hd : (z == w) = true := hd
      exact (PartialEquivBEq.trans (PartialEquivBEq.symm hd) he : (w == n) = true)
    | _ =>
      rw [hy] at hd
      cases hd

/-- A record of a service describes it. -/
theorem ServiceRecords.describes {n host : Name} {records discovery : List Record} {x : Record}
    (h : ServiceRecords n host records discovery) (hx : x ∈ records ++ discovery) :
    Describes n x := by
  rcases List.mem_append.1 hx with hx | hx
  · obtain ⟨hname, hkind, -, -⟩ := h.kinds x hx
    simp only [List.mem_cons, List.not_mem_nil, or_false] at hkind
    exact .inl ⟨hkind.symm, hname⟩
  · obtain ⟨hkind, -, hdata, -⟩ := h.pointers x hx
    exact .inr ⟨hkind, hdata⟩

namespace Registry

/-- The registries a program starts with: an empty one, or one restored from a journal. -/
inductive Started (c : Crypto) : Registry → Nat → Prop
  | fresh (now : Nat) : Started c .default now
  | restored {bytes : Bytes} {now wall : Nat} {r : Registry}
      (h : Registry.restore c bytes now wall = some r) : Started c r now

/-- What every run keeps, also after a restart. -/
structure Sound (r : Registry) (now : Nat) : Prop where
  entries : r.EntriesOk now
  policy : r.policy.validate = true

/-- No service of a name has records to return. -/
def ServiceGone (r : Registry) (n : Name) : Prop := ∀ s, r.services.get n = some s → s.Bare

/-- No host of a name has a record lease. -/
def HostGone (r : Registry) (n : Name) : Prop := ∀ h, r.hosts.get n = some h → h.expires = 0

/-- No record describes a service. -/
def ServiceSilent (r : Registry) (n : Name) (t : Nat) : Prop :=
  ∀ name kind, ∀ x ∈ r.records name kind t, ¬ Describes n x

/-- No record is an address of a host. -/
def AddressSilent (r : Registry) (n : Name) (t : Nat) : Prop :=
  ∀ name kind, ∀ x ∈ r.records name kind t, ¬ IsAddress n x

/-- Whether an event is a successful update that names a service. -/
def NamesService (n : Name) : Op × Answer → Prop
  | (.apply _ u _ _ _, .applied (.ok _) _) => ∃ s ∈ u.services, SameKey s.name n
  | _ => False

/-- Whether an event is a successful update of a host. -/
def NamesHost (n : Name) : Op × Answer → Prop
  | (.apply _ u _ _ _, .applied (.ok _) _) => SameKey u.host n
  | _ => False

/-- Records say nothing of a service in any later run until a successful update names it. -/
def ServiceLeft (c : Crypto) (r : Registry) (now : Nat) (n : Name) : Prop :=
  ∀ es r₂ t₂ t, (machine c (Verified c)).Run r now es r₂ t₂ → (∀ e ∈ es, ¬ NamesService n e) →
    t₂ ≤ t → r₂.ServiceSilent n t

/-- Records give no address of a host in any later run until a successful update names it. -/
def HostLeft (c : Crypto) (r : Registry) (now : Nat) (n : Name) : Prop :=
  ∀ es r₂ t₂ t, (machine c (Verified c)).Run r now es r₂ t₂ → (∀ e ∈ es, ¬ NamesHost n e) →
    t₂ ≤ t → r₂.AddressSilent n t

/-- The deletions of an update that was granted `g` take effect in the registry after it: those of
the services it deletes and, without a record lease, those of its host and of the host's services
under its public key. -/
structure TakesEffect (c : Crypto) (r : Registry) (u : Update) (g : Grant) (now : Nat)
    (r' : Registry) : Prop where
  deleted : ∀ s ∈ u.services, s.deleted = true → ServiceLeft c r' now s.name
  withdrawn : g.lease = 0 → ∀ n e, r.services.get n = some e → ownedBy u e = true →
    ServiceLeft c r' now n
  addresses : g.lease = 0 → HostLeft c r' now u.host

/-- An update that gives up its key lease deletes a service that lives under another host. -/
def Stranded (r : Registry) (u : Update) (now : Nat) : Prop :=
  u.keyLease = 0 ∧ ∃ s ∈ u.services, s.deleted = true ∧ ∃ e, r.services.get s.name = some e ∧
    (e.host == u.host) = false ∧ r.serviceLive e now = true ∧ e.records ++ e.discovery ≠ []

/-! ## What every run keeps -/

/-- A sound registry stays sound as time passes. -/
theorem Sound.later {r : Registry} {now t : Nat} (h : r.Sound now) (hle : now ≤ t) : r.Sound t :=
  ⟨h.entries.later hle, h.policy⟩

/-- An update does not change the policy of leases. -/
theorem next_policy (r : Registry) (u : Update) (g : Grant) (now : Nat) :
    (r.next u g now).policy = r.policy := by
  unfold next
  split <;> rfl

/-- One step keeps a registry sound. A committed update enters what it has verified; an expiry and a
new policy only take away or compare. -/
theorem Sound.step {c : Crypto} {r : Registry} {t : Nat} (hr : r.Sound t) (o : Op) (hle : t ≤ o.now)
    (hl : Verified c r o) : (r.step c o).1.Sound o.now := by
  have hr := hr.later hle
  have h := step_cases c r o
  generalize r.step c o = x at h
  cases h with
  | kept => exact hr
  | @committed now _ u _ _ g _ admitted =>
    exact ⟨EntriesOk.next hr.entries (Verified.ok hr.entries hl) admitted,
      (next_policy r u g now).symm ▸ hr.policy⟩
  | expired now => exact ⟨hr.entries.expire now, hr.policy⟩
  | policy _ valid => exact ⟨⟨hr.entries.hosts, hr.entries.services⟩, valid⟩

/-- The journal's reader returns registries it would accept. The hosts and the services were read
one by one, and the policy is a valid one. -/
theorem restore_sound {c : Crypto} {bytes : Bytes} {now wall : Nat} {r : Registry}
    (h : Registry.restore c bytes now wall = some r) : r.Sound now := by
  simp only [Registry.restore, Journal.decode, Journal.readBody, Option.bind_eq_bind,
    Option.bind_eq_some_iff, Option.bind_none, Option.ite_none_left_eq_some, Option.pure_def,
    Option.some.injEq, Prod.exists] at h
  obtain ⟨-, -, _, ⟨wall', _, -, _, _, -, _, _, -, _, _, -, -, hosts, _, hhosts,
    services, _, hservices, replies, _, -, -, rfl⟩, -, rfl⟩ := h
  refine ⟨EntriesOk.expire ⟨?_, ?_⟩ now, rfl⟩
  · exact Journal.readEntries_ok (P := HostOk now) (fun _ _ _ _ h => Journal.readHost_ok h)
      (fun _ _ _ hk h => h.congr hk) (by simp) hhosts
  · exact Journal.readEntries_ok (P := ServiceOk now) (fun _ _ _ _ h => Journal.readService_ok h)
      (fun _ _ _ hk h => h.congr hk) (by simp) hservices

/-- A program starts with a sound registry. -/
theorem Started.sound {c : Crypto} {r : Registry} {now : Nat} (h : Started c r now) :
    r.Sound now := by
  cases h with
  | fresh => exact ⟨⟨by simp [default], by simp [default]⟩, by decide⟩
  | restored h => exact restore_sound h

/-- The registry of every run is sound. -/
theorem Sound.run {c : Crypto} {t₀ t : Nat} {es : List (Op × Answer)} {r₀ r : Registry}
    (hr : r₀.Sound t₀) (run : (machine c (Verified c)).Run r₀ t₀ es r t) : r.Sound t :=
  run.invariant (I := fun r t => r.Sound t) hr fun _ _ o hr hle hl => hr.step o hle hl

/-! ## What is gone stays gone -/

/-- A service that is gone stays gone when leases expire. -/
theorem ServiceGone.expire {r : Registry} {n : Name} (h : r.ServiceGone n) (now : Nat) :
    (r.expire now).ServiceGone n := by
  intro s hs
  obtain ⟨s₀, hs₀, -, rfl | rfl⟩ := expire_service hs
  · exact h s hs₀
  · exact .inl rfl

/-- A host without a record lease does not get one by expiry. -/
theorem Host.expire_gone {now : Nat} {h : Host} (hh : h.expires = 0) :
    (h.expire now).expires = 0 := by
  unfold Host.expire
  split
  · rfl
  · exact hh

/-- A host that is gone stays gone when leases expire. -/
theorem HostGone.expire {r : Registry} {n : Name} (h : r.HostGone n) (now : Nat) :
    (r.expire now).HostGone n := by
  intro x hx
  obtain ⟨x₀, hx₀, -, rfl⟩ := expire_host hx
  exact Host.expire_gone (h x₀ hx₀)

/-- An update does not bring a service back whose new entries have nothing to return. -/
theorem ServiceGone.next {r : Registry} {n : Name} {u : Update} (g : Grant) (now : Nat)
    (h : (r.expire now).ServiceGone n)
    (hu : ∀ x ∈ u.services, SameKey x.name n → (serviceOf r u g now x).Bare) :
    (r.next u g now).ServiceGone n := by
  intro s hs
  rcases next_service hs with ⟨x, hx, hn, -, rfl⟩ | ⟨s₀, hs₀, rfl | ⟨-, -, rfl⟩⟩
  · exact hu x hx hn
  · exact h s hs₀
  · exact .inl rfl

/-- An update of another host does not bring a host back. -/
theorem HostGone.next {r : Registry} {n : Name} {u : Update} (g : Grant) (now : Nat)
    (h : (r.expire now).HostGone n) (hu : ¬ SameKey u.host n) : (r.next u g now).HostGone n := by
  intro x hx
  rcases next_host hx with ⟨hn, -, -⟩ | ⟨-, hx⟩
  · exact absurd hn hu
  · exact h x hx

/-- A service that is gone stays gone in a step that does not name it. A committed update enters
only what it names, and the other steps enter nothing. -/
theorem ServiceGone.step {c : Crypto} {r : Registry} {n : Name} (h : r.ServiceGone n) (o : Op)
    (hno : ¬ NamesService n (o, (r.step c o).2)) : (r.step c o).1.ServiceGone n := by
  have hstep := step_cases c r o
  generalize r.step c o = x at hstep hno
  cases hstep with
  | kept => exact h
  | @committed now _ _ _ _ g =>
    exact ServiceGone.next g now (h.expire now) fun x hx hn => absurd ⟨x, hx, hn⟩ hno
  | expired now => exact h.expire now
  | policy => exact h

/-- A host that is gone stays gone in a step that does not name it. A committed update enters only
its own host, and the other steps enter none. -/
theorem HostGone.step {c : Crypto} {r : Registry} {n : Name} (h : r.HostGone n) (o : Op)
    (hno : ¬ NamesHost n (o, (r.step c o).2)) : (r.step c o).1.HostGone n := by
  have hstep := step_cases c r o
  generalize r.step c o = x at hstep hno
  cases hstep with
  | kept => exact h
  | @committed now _ _ _ _ g => exact HostGone.next g now (h.expire now) hno
  | expired now => exact h.expire now
  | policy => exact h

/-- A service that is gone stays gone until a successful update names it. -/
theorem run_serviceGone {c : Crypto} {legal : Registry → Op → Prop} {t₀ t : Nat}
    {es : List (Op × Answer)} {r₀ r : Registry} {n : Name} (h : r₀.ServiceGone n)
    (run : (machine c legal).Run r₀ t₀ es r t) (hno : ∀ e ∈ es, ¬ NamesService n e) :
    r.ServiceGone n := by
  induction run with
  | nil => exact h
  | snoc o run later legal ih =>
    refine (ih fun e he => hno e (List.mem_append_left _ he)).step o (hno _ ?_)
    exact List.mem_append_right _ (List.mem_singleton.2 rfl)

/-- A host that is gone stays gone until a successful update names it. -/
theorem run_hostGone {c : Crypto} {legal : Registry → Op → Prop} {t₀ t : Nat}
    {es : List (Op × Answer)} {r₀ r : Registry} {n : Name} (h : r₀.HostGone n)
    (run : (machine c legal).Run r₀ t₀ es r t) (hno : ∀ e ∈ es, ¬ NamesHost n e) :
    r.HostGone n := by
  induction run with
  | nil => exact h
  | snoc o run later legal ih =>
    refine (ih fun e he => hno e (List.mem_append_left _ he)).step o (hno _ ?_)
    exact List.mem_append_right _ (List.mem_singleton.2 rfl)

/-! ## The records that a query finds -/

/-- The entry that a record of an answer comes from: the key of a name, a live host, or a service
that is live together with its host. -/
inductive Source (r : Registry) (name : Name) (t : Nat) (x : Record) : Prop
  | key (h : x.kind = 25)
  | host (h : Host) (hh : r.hosts.get name = some h) (live : t < h.expires) (hx : x ∈ h.addresses)
  | service (owner : Name) (s : Service) (hs : (owner, s) ∈ r.services.entries)
      (live : r.serviceLive s t = true) (hx : x ∈ s.records ++ s.discovery)

/-- Removing duplicates adds no record. By recursion on the records; of two that are the same one
stays. -/
theorem mem_dedupRecords {x : Record} : ∀ {rs : List Record}, x ∈ dedupRecords rs → x ∈ rs
  | [], h => h
  | a :: rest, h => go a rest h
where
  go (a : Record) : ∀ rest, x ∈ dedupRecords.go a rest → x ∈ a :: rest
    | [], h => h
    | b :: rest, h => by
      unfold dedupRecords.go at h
      split at h
      · rcases List.mem_cons.1 (go a rest h) with rfl | h
        · exact List.mem_cons_self
        · exact List.mem_cons_of_mem _ (List.mem_cons_of_mem _ h)
      · rcases List.mem_cons.1 h with rfl | h
        · exact List.mem_cons_self
        · exact List.mem_cons_of_mem _ (go b rest h)

/-- A record that is dropped repeats one that is kept. -/
theorem dedupRecords_covers {x : Record} : ∀ {rs : List Record}, x ∈ rs →
    ∃ y ∈ dedupRecords rs, x = y ∨
      ((x.name == y.name) = true ∧ x.kind = y.kind ∧ (x.data == y.data) = true)
  | a :: rest, h => go a rest h
where
  go (a : Record) : ∀ rest, x ∈ a :: rest → ∃ y ∈ dedupRecords.go a rest, x = y ∨
      ((x.name == y.name) = true ∧ x.kind = y.kind ∧ (x.data == y.data) = true)
    | [], h => ⟨a, List.mem_singleton.2 rfl, .inl (List.mem_singleton.1 h)⟩
    | b :: rest, h => by
      have first : ∀ rest, a ∈ dedupRecords.go a rest := by
        intro rest
        induction rest with
        | nil => exact List.mem_singleton.2 rfl
        | cons b rest ih =>
          unfold dedupRecords.go
          split
          · exact ih
          · exact List.mem_cons_self
      unfold dedupRecords.go
      split
      · next hb =>
        simp only [Bool.and_eq_true, beq_iff_eq] at hb
        rcases List.mem_cons.1 h with rfl | h
        · exact ⟨x, first rest, .inl rfl⟩
        · rcases List.mem_cons.1 h with rfl | h
          · exact ⟨a, first rest, .inr ⟨hb.1.1, hb.1.2, hb.2⟩⟩
          · exact go a rest (List.mem_cons_of_mem _ h)
      · rcases List.mem_cons.1 h with rfl | h
        · exact ⟨x, List.mem_cons_self, .inl rfl⟩
        · obtain ⟨y, hy, he⟩ := go b rest h
          exact ⟨y, List.mem_cons_of_mem _ hy, he⟩

/-- A record of an answer is a record of an entry, up to its lifetime. One case for each part of
`records`: the key, the host's records, those of its services and those that enumerate services. -/
theorem mem_records {r : Registry} {name : Name} {kind : UInt16} {t : Nat} {x : Record}
    (h : x ∈ r.records name kind t) : ∃ y ttl, x = { y with ttl := ttl } ∧ Source r name t y := by
  obtain ⟨y, hy, rfl⟩ := List.mem_map.1 (mem_dedupRecords h)
  refine ⟨y, _, rfl, ?_⟩
  rcases List.mem_append.1 hy with hy | hy
  · split at hy
    · cases hy
    · next h hh =>
      rcases List.mem_append.1 hy with hy | hy
      · split at hy
        · rw [List.mem_singleton.1 hy]
          exact .key rfl
        · cases hy
      · split at hy
        · next hl => exact .host h hh hl (List.mem_filter.1 hy).1
        · cases hy
  · obtain ⟨⟨owner, s⟩, hs, hy⟩ := List.mem_flatMap.1 hy
    rcases List.mem_append.1 hy with hy | hy
    · split at hy
      · rw [List.mem_singleton.1 hy]
        exact .key rfl
      · cases hy
    · split at hy
      · next hl => exact .service owner s hs hl (List.mem_filter.1 hy).1
      · cases hy

/-- The records of a live service are found under their names and types, up to their lifetimes and
to records that are equal. -/
theorem records_of_service {r : Registry} {n : Name} {t : Nat} {s : Service} {x : Record}
    (hs : r.services.get n = some s) (hl : r.serviceLive s t = true)
    (hx : x ∈ s.records ++ s.discovery) : ∃ y ∈ r.records x.name x.kind t, ∃ ttl,
      { x with ttl := ttl } = y ∨
        ((x.name == y.name) = true ∧ x.kind = y.kind ∧ (x.data == y.data) = true) := by
  obtain ⟨k, -, hm⟩ := OrdMap.get_eq_some_iff.1 hs
  have hfound : ∀ l : List Record, x ∈ l ++ r.services.entries.flatMap (fun e =>
      (if (e.1 == x.name) = true ∧ e.2.keyExpires > t ∧ (x.kind == 255 || x.kind == 25) = true
        then [keyRecord e.1 e.2.key (r.keyTtl e.2.keyExpires e.2.receivedAt)] else []) ++
      (if r.serviceLive e.2 t then (e.2.records ++ e.2.discovery).filter fun y =>
        y.name == x.name && (x.kind == 255 || x.kind == y.kind) else [])) := by
    intro l
    refine List.mem_append_right _ (List.mem_flatMap.2 ⟨_, hm, List.mem_append_right _ ?_⟩)
    rw [if_pos hl]
    exact List.mem_filter.2 ⟨hx, by simp⟩
  obtain ⟨y, hy, he⟩ := dedupRecords_covers (List.mem_map_of_mem (hfound _))
  exact ⟨y, hy, _, he⟩

/-- A service that is gone is not described by any record. A record that describes it belongs to its
own entry, since entries hold records of their own name only, and that entry has nothing to
return. -/
theorem ServiceGone.silent {r : Registry} {now t : Nat} {n : Name} (h : r.ServiceGone n)
    (hr : r.EntriesOk now) : r.ServiceSilent n t := by
  intro name kind x hx hd
  obtain ⟨y, ttl, rfl, hy⟩ := mem_records hx
  cases hy with
  | key hk =>
    rcases hd with ⟨hk' | hk', -⟩ | ⟨hk', -⟩ <;> rw [hk] at hk' <;> exact absurd hk' (by decide)
  | host e he _ hm =>
    obtain ⟨k, -, he⟩ := OrdMap.get_eq_some_iff.1 he
    have hkind := ((hr.hosts _ he).addresses y hm).kind
    rcases hd with ⟨hk | hk, -⟩ | ⟨hk, -⟩ <;> rw [hk] at hkind <;> exact absurd hkind (by decide)
  | service owner s hs hl hm =>
    have hrecords := (hr.services _ hs).records
    -- the record belongs to the entry of the service's own name
    have howner : SameKey owner n := by
      rcases List.mem_append.1 hm with hm | hm
      · have hrec := hrecords.kinds y hm
        rcases hd with ⟨-, hn⟩ | ⟨hk, -⟩
        · exact Name.beq_iff_sameKey.1 (PartialEquivBEq.trans (PartialEquivBEq.symm hrec.name) hn)
        · have hkind := hrec.kind
          rw [hk] at hkind
          exact absurd hkind (by decide)
      · have hptr := hrecords.pointers y hm
        rcases hd with ⟨hk | hk, -⟩ | ⟨-, hn⟩
        · rw [hptr.kind] at hk
          exact absurd hk (by decide)
        · rw [hptr.kind] at hk
          exact absurd hk (by decide)
        · obtain ⟨z, hz, he⟩ := Rdata.eq_name_of_beq hptr.data
          rw [hz] at hn
          exact Name.beq_iff_sameKey.1 (PartialEquivBEq.trans (PartialEquivBEq.symm he) hn)
    have hget : r.services.get n = some s := by
      rw [← OrdMap.get_congr _ howner]
      exact OrdMap.get_of_mem hs
    rcases h s hget with he | ⟨hnil, hnil'⟩
    · simp only [serviceLive, he] at hl
      simp at hl
    · rw [hnil, hnil'] at hm
      cases hm

/-- A host that is gone has no address. An answer of type A or AAAA comes from a live host entry,
and that entry would be found under the name. -/
theorem HostGone.silent {r : Registry} {now t : Nat} {n : Name} (h : r.HostGone n)
    (hr : r.EntriesOk now) : r.AddressSilent n t := by
  intro name kind x hx hd
  obtain ⟨y, ttl, rfl, hy⟩ := mem_records hx
  obtain ⟨hk, hn⟩ := hd
  cases hy with
  | key hk' => rcases hk with hk | hk <;> rw [hk'] at hk <;> exact absurd hk (by decide)
  | host e he hl hm =>
    obtain ⟨k, hkey, he'⟩ := OrdMap.get_eq_some_iff.1 he
    have hname := ((hr.hosts _ he').addresses y hm).name
    have hsame : SameKey name n :=
      hkey.symm.trans (Name.beq_iff_sameKey.1
        (PartialEquivBEq.trans (PartialEquivBEq.symm hname) hn))
    have hz := h e (by rw [← OrdMap.get_congr _ hsame]; exact he)
    omega
  | service owner s hs hl hm =>
    have hrecords := (hr.services _ hs).records
    rcases List.mem_append.1 hm with hm | hm
    · have hkind := (hrecords.kinds y hm).kind
      rcases hk with hk | hk <;> rw [hk] at hkind <;> exact absurd hkind (by decide)
    · have hkind := (hrecords.pointers y hm).kind
      rcases hk with hk | hk <;> rw [hkind] at hk <;> exact absurd hk (by decide)

/-! ## What a deletion does -/

/-- A new update that succeeds was admitted, and the registry is the next one. Every check of
`apply_checked` that fails ends the update with an error, and the update succeeds only when the
store has taken the journal of the next registry. -/
theorem applyChecked_ok {c : Crypto} {r : Registry} {u : Update} {save : Bytes → Bool}
    {now wall : Nat} {accept : Registry → Except Error Unit} {g : Grant}
    (hnew : r.cachedDigest u.digest now = none)
    (h : (r.applyChecked c u save now wall accept).result = .ok g) :
    r.admits u now = .ok g ∧ (r.applyChecked c u save now wall accept).registry =
    r.next u g now := by
  unfold applyChecked at h ⊢
  rw [hnew] at h ⊢
  simp only at h ⊢
  cases ha : r.admits u now with
  | error e =>
    rw [ha] at h
    cases h
  | ok g' =>
    rw [ha] at h
    simp only at h ⊢
    split at h
    · cases h
    · next hb =>
      rw [if_neg hb]
      cases hacc : accept (r.next u g' now) with
      | error e =>
        rw [hacc] at h
        cases h
      | ok =>
        rw [hacc] at h
        simp only at h ⊢
        cases he : Journal.encode c (r.next u g' now) now wall with
        | none =>
          rw [he] at h
          cases h
        | some bytes =>
          rw [he] at h
          simp only at h ⊢
          split at h
          · next hsave =>
            cases h
            rw [if_pos hsave]
            exact ⟨rfl, rfl⟩
          · cases h

/-- The grant of an admitted update is the one that the policy allows. -/
theorem admits_grantFor {r : Registry} {u : Update} {now : Nat} {g : Grant}
    (h : r.admits u now = .ok g) : g = r.grantFor u := by
  unfold admits at h
  split at h
  · cases h
  · simp only at h
    split at h
    · cases h
    · split at h
      · cases h
      · exact (Except.ok.inj h).symm

/-- A valid policy grants no key lease only to those that ask for none. The bounds of a valid policy
are not zero, and the smaller of two numbers is zero only if one of them is. -/
theorem grantFor_keyLease {r : Registry} (u : Update) (hp : r.policy.validate = true) :
    (r.grantFor u).keyLease = 0 ↔ u.keyLease = 0 := by
  simp only [LeasePolicy.validate, Bool.not_eq_true', Bool.or_eq_false_iff, beq_eq_false_iff_ne,
    decide_eq_false_iff_not, UInt32.not_lt] at hp
  obtain ⟨⟨⟨⟨hmax, hkey⟩, -⟩, -⟩, -⟩ := hp
  have hmax : r.policy.maxLease.toNat ≠ 0 := fun h => hmax (UInt32.toNat_inj.1 h)
  have hkey : r.policy.maxLease.toNat ≤ r.policy.maxKeyLease.toNat := UInt32.le_iff_toNat_le.1 hkey
  have hzero : ∀ a b : UInt32, b.toNat ≠ 0 → (min a b = 0 ↔ a = 0) := by
    intro a b hb
    rw [UInt32.min_def]
    split
    · exact Iff.rfl
    · next hle =>
      rw [UInt32.le_iff_toNat_le] at hle
      refine ⟨fun h => absurd (by rw [h]; rfl) hb, fun h => ?_⟩
      rw [h] at hle
      exact absurd (Nat.zero_le _) hle
  unfold grantFor
  simp only
  split
  · exact hzero _ _ (by omega)
  · exact hzero _ _ hmax

/-- An update without a key lease leaves the services that are not its host's under its key. -/
theorem released_service {r : Registry} {u : Update} {g : Grant} {now : Nat} (hz : g.keyLease = 0)
    (n : Name) : (r.next u g now).services.get n =
      ((r.expire now).services.get n).filter fun s => !ownedBy u s := by
  unfold next
  simp only [hz, if_true, release, OrdMap.get_retain_values]

/-- A service that an update with a key lease names is one of the update's own after it. -/
theorem named_service (r : Registry) {u : Update} {g : Grant} (now : Nat) (hz : g.keyLease ≠ 0)
    {n : Name} {s : ServiceUpdate} (hs : s ∈ u.services) (hn : SameKey s.name n) :
    ∃ x ∈ u.services, SameKey x.name n ∧
      (r.next u g now).services.get n = some (serviceOf r u g now x) := by
  unfold next
  simp only [hz, if_false, register]
  rcases foldl_insert_get (serviceOf r u g now) n u.services
      (withdraw (r.expire now).services u g) with ⟨x, hx, hxn, he⟩ | ⟨hno, -⟩
  · exact ⟨x, hx, hxn, he⟩
  · exact absurd hn (hno s hs)

/-- An update without a record lease withdraws the records of its host's services. They are released
with their host, or registered with an end at zero. -/
theorem withdrawn_service {r : Registry} {u : Update} {g : Grant} {now : Nat} (hl : g.lease = 0)
    {n : Name} {e s : Service} (he : (r.expire now).services.get n = some e)
    (ho : ownedBy u e = true) (hs : (r.next u g now).services.get n = some s) : s.expires = 0 := by
  by_cases hz : g.keyLease = 0
  · rw [released_service hz, he] at hs
    obtain ⟨-, hown⟩ := Option.filter_eq_some_iff.1 hs
    obtain rfl := Option.some.inj ((Option.filter_eq_some_iff.1 hs).1)
    rw [ho] at hown
    cases hown
  · unfold next at hs
    simp only [hz, if_false, register] at hs
    rcases foldl_insert_get (serviceOf r u g now) n u.services
        (withdraw (r.expire now).services u g) with ⟨x, -, -, hx⟩ | ⟨-, hx⟩
    · rw [hx] at hs
      obtain rfl := Option.some.inj hs
      simp [serviceOf, hl]
    · rw [hx] at hs
      unfold withdraw at hs
      rw [if_pos hl, OrdMap.get_mapValues_values, he, Option.map_some, if_pos ho] at hs
      obtain rfl := Option.some.inj hs
      rfl

/-- A service whose records outlive an expiry is live, and its key is its host's. An expiry keeps
the records of a service only if it finds the host with that key, which therefore was live
before. -/
theorem expire_live {r : Registry} {now : Nat} {n : Name} {s : Service}
    (hs : (r.expire now).services.get n = some s) : s.Bare ∨
      r.services.get n = some s ∧ r.serviceLive s now = true ∧
        ∃ h, r.hosts.get s.host = some h ∧ now < h.keyExpires ∧
        h.key.samePublicKey s.key = true := by
  rw [expire_services_get] at hs
  obtain ⟨e, he, rfl⟩ := Option.map_eq_some_iff.1 hs
  obtain ⟨he, -⟩ := Option.filter_eq_some_iff.1 he
  split
  · exact .inl (.inl rfl)
  · next hc =>
    simp only [not_or, Nat.not_le, Bool.not_eq_false] at hc
    obtain ⟨hlt, hany⟩ := hc
    obtain ⟨h, hh, hlive⟩ := (Option.any_eq_true _ _).1 hany
    obtain ⟨h₀, hh₀, hkey, rfl⟩ := expire_host hh
    simp only [Bool.and_eq_true, decide_eq_true_eq, Host.expire_key] at hlive
    have hexp : now < h₀.expires := by
      have := hlive.1
      unfold Host.expire at this
      split at this
      · exact absurd this (Nat.not_lt_zero _)
      · exact this
    refine .inr ⟨he, ?_, h₀, hh₀, hkey, hlive.2⟩
    simp [serviceLive, hlt, hh₀, hexp, hlive.2]

/-- A live service outlives an expiry, and so does its host. Its deadlines are later than the
moment, and the key lease of its host is no shorter than the record lease. -/
theorem expire_of_live {r : Registry} {now t : Nat} {n : Name} {s : Service} (hr : r.EntriesOk t)
    (hs : r.services.get n = some s) (hl : r.serviceLive s now = true) :
    (r.expire now).services.get n = some s ∧
      (r.expire now).hosts.get s.host = r.hosts.get s.host := by
  simp only [serviceLive, Bool.and_eq_true, decide_eq_true_eq] at hl
  obtain ⟨hexp, hany⟩ := hl
  obtain ⟨h, hh, hlive⟩ := (Option.any_eq_true _ _).1 hany
  simp only [Bool.and_eq_true, decide_eq_true_eq] at hlive
  obtain ⟨k, -, hm⟩ := OrdMap.get_eq_some_iff.1 hs
  obtain ⟨k', -, hm'⟩ := OrdMap.get_eq_some_iff.1 hh
  have hord := (hr.services _ hm).leases.ordered
  have hord' := (hr.hosts _ hm').leases.ordered
  have hhost : (r.expire now).hosts.get s.host = some h := by
    rw [expire_hosts_get, hh]
    have : ¬ h.expires ≤ now := Nat.not_le.2 hlive.1
    have hkey : now < h.keyExpires := Nat.lt_of_lt_of_le hlive.1 hord'
    simp [Option.filter, hkey, Host.expire, this]
  refine ⟨?_, hhost.trans hh.symm⟩
  rw [expire_services_get, hs]
  have hkey : now < s.keyExpires := Nat.lt_of_lt_of_le hexp hord
  simp [Option.filter, hkey, hhost, hlive.1, hlive.2, Nat.not_le.2 hexp]

/-- A service that is gone is left out of every answer of later runs. -/
theorem ServiceGone.left {c : Crypto} {r : Registry} {now : Nat} {n : Name} (h : r.ServiceGone n)
    (hr : r.Sound now) : ServiceLeft c r now n := fun _ _ _ _ run hno _ =>
  (run_serviceGone h run hno).silent (hr.run run).entries

/-- The addresses of a host that is gone are left out of every answer of later runs. -/
theorem HostGone.left {c : Crypto} {r : Registry} {now : Nat} {n : Name} (h : r.HostGone n)
    (hr : r.Sound now) : HostLeft c r now n := fun _ _ _ _ run hno _ =>
  (run_hostGone h run hno).silent (hr.run run).entries

/-- The services that an update deletes are gone after it, unless one is stranded. An update that
releases its host takes the services of that host with it; any other removes each deleted service by
its name. -/
theorem deleted_gone {r : Registry} {u : Update} {g : Grant} {now : Nat}
    (hp : r.policy.validate = true) (ha : r.admits u now = .ok g) (hno : ¬ r.Stranded u now)
    (hdel : ∀ x ∈ u.services, ∀ s ∈ u.services, SameKey x.name s.name → x.deleted = s.deleted)
    {s : ServiceUpdate} (hs : s ∈ u.services) (hd : s.deleted = true) :
    (r.next u g now).ServiceGone s.name := by
  intro e he
  by_cases hz : g.keyLease = 0
  · rw [released_service hz] at he
    obtain ⟨he, hown⟩ := Option.filter_eq_some_iff.1 he
    rcases expire_live he with hbare | ⟨hget, hlive, h, hh, hkey, hsame⟩
    · exact hbare
    · have hlease : u.keyLease = 0 := by
        rw [admits_grantFor ha] at hz
        exact (grantFor_keyLease u hp).1 hz
      cases hhost : e.host == u.host with
      | false =>
        have hnil : e.records ++ e.discovery = [] := by_contra fun hne =>
          hno ⟨hlease, s, hs, hd, e, hget, hhost, hlive, hne⟩
        exact .inr (List.append_eq_nil_iff.1 hnil)
      | true =>
        -- the host is live under the update's key, so the service was the update's to remove
        have hk := admits_key ha (.inl rfl) (PartialEquivBEq.symm hhost |> Name.beq_iff_sameKey.1)
          (key_of_host hh hkey)
        have := Key.samePublicKey_trans (Key.samePublicKey_symm hsame) hk
        simp [ownedBy, hhost, this] at hown
  · obtain ⟨x, hx, hxn, hget⟩ := named_service r now hz hs rfl
    rw [hget] at he
    obtain rfl := Option.some.inj he
    have hxd : x.deleted = true := (hdel x hx s hs hxn).trans hd
    exact .inl (by simp [serviceOf, hxd])

/-- Without a record lease, the services of the update's host under its key are gone after it. They
have expired before it, or it withdraws them. -/
theorem withdrawn_gone {r : Registry} {u : Update} {g : Grant} {now : Nat} (hl : g.lease = 0)
    {n : Name} {e : Service} (he : r.services.get n = some e) (ho : ownedBy u e = true) :
    (r.next u g now).ServiceGone n := by
  intro s hs
  cases hlive : (r.expire now).services.get n with
  | none =>
    rcases next_service hs with ⟨x, -, -, -, rfl⟩ | ⟨s₀, hs₀, -⟩
    · exact .inl (by simp [serviceOf, hl])
    · rw [hlive] at hs₀
      cases hs₀
  | some e' =>
    obtain ⟨e₀, he₀, -, hcases⟩ := expire_service hlive
    rw [he] at he₀
    obtain rfl := Option.some.inj he₀
    have ho' : ownedBy u e' = true := by
      rcases hcases with rfl | rfl <;> exact ho
    exact .inl (withdrawn_service hl hlive ho' hs)

/-- Without a record lease, the update's host is gone after it. -/
theorem host_gone {r : Registry} {u : Update} {g : Grant} {now : Nat} (hl : g.lease = 0) :
    (r.next u g now).HostGone u.host := by
  intro h hh
  rcases next_host hh with ⟨-, -, rfl⟩ | ⟨hn, -⟩
  · simp [hostOf, hl]
  · exact absurd rfl hn

/-- A stranded service is described by the records of the registry after the update. Its entry
belongs to another host, so the release leaves it in place, and that host is live. -/
theorem Stranded.described {r : Registry} {u : Update} {g : Grant} {now : Nat} (hr : r.Sound now)
    (ha : r.admits u now = .ok g) (h : r.Stranded u now) : ∃ s ∈ u.services, s.deleted = true ∧
      ¬ (r.next u g now).ServiceSilent s.name now := by
  obtain ⟨hz, s, hs, hd, e, he, hhost, hlive, hne⟩ := h
  have hz : g.keyLease = 0 := by
    rw [admits_grantFor ha]
    exact (grantFor_keyLease u hr.policy).2 hz
  obtain ⟨hexp, hhosts⟩ := expire_of_live hr.entries he hlive
  have hget : (r.next u g now).services.get s.name = some e := by
    rw [released_service hz, hexp]
    simp [ownedBy, hhost]
  have hframe : (r.next u g now).hosts.get e.host = r.hosts.get e.host := by
    rw [next_hosts_frame r g now fun hn => ?_, hhosts]
    rw [PartialEquivBEq.symm (Name.beq_iff_sameKey.2 hn)] at hhost
    cases hhost
  have hlive' : (r.next u g now).serviceLive e now = true := by
    unfold serviceLive at hlive ⊢
    rw [hframe]
    exact hlive
  obtain ⟨x, hx⟩ := List.exists_mem_of_ne_nil _ hne
  obtain ⟨k, hk, hm⟩ := OrdMap.get_eq_some_iff.1 he
  have hdesc := ((hr.entries.services _ hm).congr hk).records.describes hx
  obtain ⟨y, hy, ttl, hxy⟩ := records_of_service hget hlive' hx
  refine ⟨s, hs, hd, fun hsilent => hsilent _ _ y hy ?_⟩
  rcases hxy with rfl | ⟨hn, hk, hdata⟩
  · exact hdesc
  · exact hdesc.congr hn hk hdata

/-- In every run, the deletions of an update that succeeds take effect, and last until a successful
update names what was deleted, exactly when the update strands no service. -/
theorem takesEffect_iff {c : Crypto} {t₀ t : Nat} {es : List (Op × Answer)} {r₀ r : Registry}
    (start : Started c r₀ t₀) (run : (machine c (Verified c)).Run r₀ t₀ es r t) {now wall : Nat}
    {u : Update} {save : Bytes → Bool} {accept : Registry → Except Error Unit} (hle : t ≤ now)
    (hu : Verified c r (.apply now u save wall accept)) (hnew : r.cachedDigest u.digest now = none)
    {g : Grant} (hok : (r.applyChecked c u save now wall accept).result = .ok g) :
    TakesEffect c r u g now (r.applyChecked c u save now wall accept).registry ↔
    ¬ r.Stranded u now := by
  have hr := (start.sound.run run).later hle
  obtain ⟨ha, hnext⟩ := applyChecked_ok hnew hok
  have hr' : (r.next u g now).Sound now :=
    ⟨EntriesOk.next hr.entries (hu.ok hr.entries) ha, (next_policy r u g now).symm ▸ hr.policy⟩
  have hdel :
      ∀ x ∈ u.services, ∀ s ∈ u.services, SameKey x.name s.name → x.deleted = s.deleted := by
    obtain ⟨zones, v, bytes, clock, budget, hv, hverify⟩ := hu
    exact fun x hx s hs hn => (Validator.verify_checked hverify).deleted hx hs hn
  rw [hnext]
  constructor
  · rintro ⟨hdeleted, -, -⟩ hstranded
    obtain ⟨s, hs, hd, hloud⟩ := hstranded.described hr ha
    exact hloud (hdeleted s hs hd [] _ now now .nil (by simp) (Nat.le_refl _))
  · intro hno
    exact ⟨fun s hs hd => (deleted_gone hr.policy ha hno hdel hs hd).left hr',
      fun hl n e he ho => (withdrawn_gone hl he ho).left hr', fun hl => (host_gone hl).left hr'⟩

instance (r : Registry) (u : Update) (now : Nat) : Decidable (r.Stranded u now) :=
  decidable_of_iff (u.keyLease = 0 ∧ ∃ s ∈ u.services, s.deleted = true ∧
      (r.services.get s.name).any (fun e => !(e.host == u.host) && r.serviceLive e now &&
        !(e.records ++ e.discovery).isEmpty) = true) <| by
    simp [Stranded, Option.any_eq_true, and_assoc]

/-- A signed update of a host that gives up its leases and deletes the service of `sampleUpdate`. -/
def releaseUpdate (id : Nat) (host : Name) (signature : Bytes) : Bytes :=
  let service : Name := ⟨ascii "a" :: ascii "_ipp" :: ascii "_tcp" :: defaultZone.labels, by decide⟩
  toBe 2 id ++ toBe 2 0x2800 ++ toBe 2 1 ++ toBe 2 0 ++ toBe 2 3 ++ toBe 2 2 ++
    defaultZone.canonical ++ toBe 2 6 ++ toBe 2 1 ++
    resourceRecord host 255 255 0 [] ++
    resourceRecord host 25 1 0 ([2, 0, 3, 15] ++ samplePublicKey) ++
    resourceRecord service 255 255 0 [] ++
    resourceRecord .root 41 1232 0 (toBe 2 2 ++ toBe 2 8 ++ toBe 4 0 ++ toBe 4 0) ++
    resourceRecord .root 24 255 0 (toBe 2 0 ++ [15, 0] ++ toBe 4 0 ++ toBe 4 0 ++ toBe 4 0 ++
      toBe 2 34514 ++ host.canonical ++ signature)

/-- Another host name of the default zone. -/
def scanner : Name := ⟨ascii "scanner" :: defaultZone.labels, by decide⟩

/-- The update of the service's own host, with its signature under `samplePublicKey`. -/
def printerRelease : Bytes := releaseUpdate 9 printer
  [164, 127, 205, 111, 58, 70, 169, 19, 214, 178, 42, 212, 77, 250, 41, 79, 106, 75, 128, 186,
    91, 49, 0, 16, 169, 208, 138, 153, 225, 100, 246, 115, 120, 238, 62, 2, 81, 195, 69,
    169, 116, 141, 250, 224, 234, 160, 240, 136, 231, 54, 135, 139, 99, 31, 115, 85, 114,
    195, 1, 7, 2, 161, 179, 11]

/-- The update of another host, with its signature under `samplePublicKey`. -/
def scannerRelease : Bytes := releaseUpdate 8 scanner
  [195, 51, 21, 216, 229, 143, 46, 151, 80, 231, 215, 213, 238, 198, 46, 143, 141, 7, 73, 70,
    220, 33, 55, 63, 203, 47, 149, 198, 205, 185, 71, 202, 36, 106, 43, 22, 48, 201, 97,
    196, 4, 75, 60, 70, 169, 48, 122, 0, 53, 151, 97, 2, 148, 16, 95, 0, 6, 131, 6, 133, 45,
    46, 189, 10]

/-- Cryptographic functions that accept every signature, with the fingerprints of the three
updates. -/
def releaseCrypto : Crypto where
  validPublic _ _ := true
  verify _ _ _ _ := true
  fingerprint b :=
    if b = scannerRelease then ⟨[200, 204, 105, 134, 96, 218, 218, 8, 0, 145, 52,
      60, 236, 146, 16, 183, 181, 124, 192, 126, 83, 244, 106, 43, 35, 100, 142, 108,
        57, 81, 63, 151], rfl⟩
    else if b = printerRelease then
      ⟨[237, 207, 115, 85, 126, 109, 16, 218, 67, 67, 250, 92, 88, 57, 32, 25, 161,
        132, 44, 201, 191, 152, 42, 14, 97, 100, 119, 0, 27, 107, 195, 100], rfl⟩
    else sampleCrypto.fingerprint b
  sha1 _ := zeros 20

/-- An update that every store accepts, at a moment. -/
def committed (now : Nat) (u : Update) : Op := .apply now u (fun _ => true) 100 fun _ => .ok ()

/-- What the validator of the default zone makes of a message. -/
def received (r : Registry) (bytes : Bytes) (now : Nat) : Except Error Update :=
  (Validator.verify releaseCrypto ⟨[]⟩ bytes 0 1 fun n => r.key n now).1

/-- The registration of `sampleUpdate`, the registry after it, and the release that follows with its
grant. -/
def released (release : Bytes) : Option (Update × Registry × Update × Grant) :=
  match received default sampleUpdate 5000 with
  | .error _ => none
  | .ok u₁ =>
    let r := (default.step releaseCrypto (committed 5000 u₁)).1
    match received r release 6000 with
    | .error _ => none
    | .ok u₂ =>
      match (r.applyChecked releaseCrypto u₂ (fun _ => true) 6000 100 fun _ => .ok ()).result with
      | .error _ => none
      | .ok g => some (u₁, r, u₂, g)

/-- The registration and the release are those of a run of verified updates. Both are read from
octets that the validator has accepted. -/
theorem released_run {release : Bytes} {u₁ u₂ : Update} {r : Registry} {g : Grant}
    (h : released release = some (u₁, r, u₂, g)) :
    (∃ answer, (machine releaseCrypto (Verified releaseCrypto)).Run .default 0
      [(committed 5000 u₁, answer)] r 5000) ∧
    Verified releaseCrypto r (committed 6000 u₂) ∧
    (r.applyChecked releaseCrypto u₂ (fun _ => true) 6000 100 fun _ => .ok ()).result = .ok g := by
  unfold released at h
  split at h
  · cases h
  · next u₁' hu₁ =>
    simp only at h
    split at h
    · cases h
    · next u₂' hu₂ =>
      split at h
      · cases h
      · next g' hg =>
        cases h
        refine ⟨⟨_, Machine.Run.snoc (committed 5000 u₁) .nil (Nat.zero_le _) ?_⟩, ?_, hg⟩
        · exact ⟨[], ⟨[]⟩, sampleUpdate, 0, 1, rfl, hu₁⟩
        · exact ⟨[], ⟨[]⟩, release, 0, 1, rfl, hu₂⟩

/-- The theorem applied to the release of a printer by the service's own host, which takes
effect. -/
theorem takesEffect_printer : ∃ u₁ r u₂ g, released printerRelease = some (u₁, r, u₂, g) ∧
    r.services.size = 1 ∧ (u₂.services.all fun s => s.deleted) = true ∧ g.lease = 0 ∧
    TakesEffect releaseCrypto r u₂ g 6000
      (r.applyChecked releaseCrypto u₂ (fun _ => true) 6000 100 fun _ => .ok ()).registry := by
  have h : (released printerRelease).any (fun x => decide (x.2.1.services.size = 1 ∧
      (x.2.2.1.services.all fun s => s.deleted) = true ∧ x.2.2.2.lease = 0) &&
      ((x.2.1.cachedDigest x.2.2.1.digest 6000).isNone && !decide (x.2.1.Stranded x.2.2.1 6000))) =
      true := by decide +kernel
  obtain ⟨⟨u₁, r, u₂, g⟩, hx, hd⟩ := (Option.any_eq_true _ _).1 h
  simp only [Bool.and_eq_true, decide_eq_true_eq, Option.isNone_iff_eq_none, Bool.not_eq_true',
    decide_eq_false_iff_not] at hd
  obtain ⟨⟨hsize, hall, hlease⟩, hnew, hno⟩ := hd
  obtain ⟨⟨answer, run⟩, hverified, hok⟩ := released_run hx
  refine ⟨u₁, r, u₂, g, hx, hsize, hall, hlease, ?_⟩
  exact (takesEffect_iff (.fresh 0) run (by decide) hverified hnew hok).2 hno

/-- The release by another host of the same key is granted and leaves the records of the service
that it deletes. -/
theorem scannerRelease_ineffective : ∃ u₁ r u₂ g answer,
    (machine releaseCrypto (Verified releaseCrypto)).Run .default 0
      [(committed 5000 u₁, answer)] r 5000 ∧
    Verified releaseCrypto r (committed 6000 u₂) ∧ r.cachedDigest u₂.digest 6000 = none ∧
    (r.applyChecked releaseCrypto u₂ (fun _ => true) 6000 100 fun _ => .ok ()).result = .ok g ∧
    ¬ TakesEffect releaseCrypto r u₂ g 6000
      (r.applyChecked releaseCrypto u₂ (fun _ => true) 6000 100 fun _ => .ok ()).registry := by
  have h : (released scannerRelease).any (fun x =>
      (x.2.1.cachedDigest x.2.2.1.digest 6000).isNone && decide (x.2.1.Stranded x.2.2.1 6000)) =
      true := by decide +kernel
  obtain ⟨⟨u₁, r, u₂, g⟩, hx, hd⟩ := (Option.any_eq_true _ _).1 h
  simp only [Bool.and_eq_true, Option.isNone_iff_eq_none, decide_eq_true_eq] at hd
  obtain ⟨hnew, hstranded⟩ := hd
  obtain ⟨⟨answer, run⟩, hverified, hok⟩ := released_run hx
  refine ⟨u₁, r, u₂, g, answer, run, hverified, hnew, hok, fun heffect => ?_⟩
  obtain ⟨ha, hnext⟩ := applyChecked_ok hnew hok
  have hr := ((Started.fresh (c := releaseCrypto) 0).sound.run run).later (by decide : 5000 ≤ 6000)
  obtain ⟨s, hs, hdel, hloud⟩ := hstranded.described hr ha
  rw [hnext] at heffect
  exact hloud (heffect.deleted s hs hdel [] _ 6000 6000 .nil (by simp) (Nat.le_refl _))

end Registry

end SnacMachine.Srp
