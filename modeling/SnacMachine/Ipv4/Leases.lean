import SnacMachine.Ipv4.Client

/-!
# What the DHCPv4 client keeps

What holds of a client in every run (`Client.Sound`), and what its calls do to the address that it
uses, to the address that it probes for and to the leases that it holds (`Client.Calm`): but for the
ARP probes (`Client.tick`), they only give addresses up, start to probe for one, or take a lease
that a server acknowledged. From this the lease of a client is always one that was acknowledged to
it (`Client.granted`) and has not expired after a poll, and no call panics (`Client.lawful`).
-/

namespace SnacMachine.Ipv4

open Ip Nat64

namespace Client

/-- The octets of a link-local address, by the number that is drawn for it. The number is added to
the address 169.254.1.0 and does not leave its network. -/
theorem linkLocalAddress_octets {x : Nat} (hx : x ≤ 254 * 256 - 1) : (linkLocalAddress x).1 =
    [169, 254, UInt8.ofNat ((256 + x) / 256), UInt8.ofNat (256 + x)] := by
  have hbe : ofBe [169, 254, 1, 0] = 2851995904 := by decide
  have hbytes : (linkLocalAddress x).1 = toBe 4 (2851995904 + x) :=
    congrArg (fun n => toBe 4 (n + x)) hbe
  have hoctet : ∀ {a b : Nat}, a % 256 = b % 256 → UInt8.ofNat a = UInt8.ofNat b := by
    intro a b h
    rw [← UInt8.toNat_inj, UInt8.toNat_ofNat', UInt8.toNat_ofNat']
    exact h
  rw [hbytes]
  show [UInt8.ofNat ((2851995904 + x) / 256 ^ 3), UInt8.ofNat ((2851995904 + x) / 256 ^ 2),
    UInt8.ofNat ((2851995904 + x) / 256 ^ 1), UInt8.ofNat ((2851995904 + x) / 256 ^ 0)] =
    [UInt8.ofNat 169, UInt8.ofNat 254, UInt8.ofNat ((256 + x) / 256), UInt8.ofNat (256 + x)]
  rw [hoctet (a := (2851995904 + x) / 256 ^ 3) (b := 169) (by omega),
    hoctet (a := (2851995904 + x) / 256 ^ 2) (b := 254) (by omega),
    hoctet (a := (2851995904 + x) / 256 ^ 1) (b := (256 + x) / 256) (by omega),
    hoctet (a := (2851995904 + x) / 256 ^ 0) (b := 256 + x) (by omega)]

/-- The address is link-local, and that of a host: neither the first nor the last 256 of the range
are used. -/
theorem linkLocalAddress_fit {x : Nat} (hx : x ≤ 254 * 256 - 1) :
    isLinkLocal (linkLocalAddress x) = true ∧ unicast (linkLocalAddress x) = true ∧
      hostAddress (linkLocalAddress x) 16 = true := by
  have hoctets := linkLocalAddress_octets hx
  refine ⟨?_, ?_, ?_⟩
  · unfold isLinkLocal
    rw [hoctets]
    rfl
  · have hne :
        ∀ b : UInt8, b ≠ 169 → ([169, 254, UInt8.ofNat ((256 + x) / 256), UInt8.ofNat (256 + x)] !=
        [b, b, b, b]) = true := by
      intro b hb
      refine bne_iff_ne.2 fun heq => hb ?_
      exact (List.cons.inj heq).1.symm
    unfold unicast
    have hfirst :
        octet [169, 254, UInt8.ofNat ((256 + x) / 256), UInt8.ofNat (256 + x)] 0 = 169 := rfl
    rw [hoctets, hne 0 (by decide), hne 255 (by decide), hfirst]
    decide
  · have hbits : hostBits (linkLocalAddress x) 16 = 256 + x := by
      unfold hostBits linkLocalAddress
      have hbe : ofBe [169, 254, 1, 0] = 2851995904 := by decide
      show ofBe (toBe 4 (ofBe [169, 254, 1, 0] + x)) % 2 ^ (32 - 16) = 256 + x
      rw [ofBe_toBe_mod, hbe]
      omega
    unfold hostAddress
    rw [hbits]
    simp only [Bool.or_eq_true, Bool.and_eq_true, bne_iff_ne, decide_eq_true_eq]
    omega

/-- The address that a client uses. -/
def address (c : Client) : Option Ipv4Addr := c.configuration.map Configuration.address

/-- The leases that a client uses or is about to use. -/
def Held (c : Client) (l : Lease) : Prop :=
  c.active = some l ∨ ∃ p, c.probe = some p ∧ p.lease = some l

/-- What holds of an address that is probed for. -/
structure Probed (c : Client) (p : Probe) : Prop where
  sent : p.sent ≤ 4
  done : p.sent = 4 → p.lease = none
  fresh : p.sent < 4 → c.address ≠ some p.address
  leased : ∀ l, p.lease = some l → l.Sound ∧ l.config.address = p.address ∧
    (c.state = .bound ∨ c.state = .renewing ∨ c.state = .rebinding)
  local_ : p.sent < 4 → p.lease = none →
    (∃ x, x ≤ 254 * 256 - 1 ∧ p.address = linkLocalAddress x) ∧ c.active = none ∧ c.linkLocal = none

/-- What holds of a client. -/
structure Sound (c : Client) : Prop where
  exclusive : c.active = none ∨ c.linkLocal = none
  active : ∀ l, c.active = some l → l.Sound ∧
    (c.state = .bound ∨ c.state = .renewing ∨ c.state = .rebinding)
  states : c.state = .renewing ∨ c.state = .rebinding → ∃ l, c.active = some l
  linkLocal : ∀ conf, c.linkLocal = some conf →
    ∃ x, x ≤ 254 * 256 - 1 ∧ conf = ⟨linkLocalAddress x, 16, [], [], []⟩
  offers : ∀ l ∈ c.offers, l.Sound
  stopped : c.state = .stopped → c.probe = none ∧ c.active = none ∧ c.linkLocal = none
  probe : ∀ p, c.probe = some p → c.Probed p

/-- What a call does that probes for no address: the leases in `acked` are acknowledged to it. -/
structure Calm (acked : Lease → Prop) (c c' : Client) : Prop where
  sound : c'.Sound
  mac : c'.mac = c.mac
  address : c'.address = none ∨ c'.address = c.address
  probe : c'.probe = none ∨ c'.probe = c.probe ∨ ∃ p, c'.probe = some p ∧ p.sent = 0
  held : ∀ l, c'.Held l → c.Held l ∨ acked l

variable {acked : Lease → Prop} {c c' c'' : Client} {w : World} {now : Nat} {α β : Type}

/-- Doing nothing is calm. -/
theorem Calm.refl (hc : c.Sound) : Calm acked c c :=
  ⟨hc, rfl, .inr rfl, .inr (.inl rfl), fun _ h => .inl h⟩

/-- Calm steps, one after the other, are a calm step. Each clause is one of the second step or,
where that leaves things as they were, of the first. -/
theorem Calm.trans (h : Calm acked c c') (h' : Calm acked c' c'') : Calm acked c c'' := by
  refine ⟨h'.sound, h'.mac.trans h.mac, ?_, ?_, fun l hl => ?_⟩
  · rcases h'.address with h1 | h1
    · exact .inl h1
    · rw [h1]
      exact h.address
  · rcases h'.probe with h1 | h1 | h1
    · exact .inl h1
    · rw [h1]
      exact h.probe
    · exact .inr (.inr h1)
  · rcases h'.held l hl with h1 | h1
    · exact h.held l h1
    · exact .inr h1

/-- A change of what is neither an address, a probe nor a lease in use leaves the client sound and
is calm. The state may change too, as long as it fits what is in use. -/
theorem Calm.congr (hc : c.Sound) (hmac : c'.mac = c.mac) (hactive : c'.active = c.active)
    (hlocal : c'.linkLocal = c.linkLocal) (hprobe : c'.probe = c.probe)
    (hoffers : ∀ l ∈ c'.offers, l.Sound) (hstate : c'.state = c.state ∨
      (∃ l, c.active = some l) ∧
      (c'.state = .bound ∨ c'.state = .renewing ∨ c'.state = .rebinding) ∨
      c.active = none ∧ (∀ p, c.probe = some p → p.lease = none) ∧
        (c'.state = .selecting ∨ c'.state = .requesting ∨ c'.state = .reboot)) :
    Calm acked c c' := by
  have haddress : c'.address = c.address := by
    unfold Client.address Client.configuration
    rw [hactive, hlocal]
  refine ⟨⟨?_, ?_, ?_, ?_, hoffers, ?_, ?_⟩, hmac, .inr haddress, .inr (.inl hprobe),
    fun l hl => .inl ?_⟩
  · rw [hactive, hlocal]
    exact hc.exclusive
  · intro l hl
    rw [hactive] at hl
    refine ⟨(hc.active l hl).1, ?_⟩
    rcases hstate with h | ⟨-, h⟩ | ⟨h, -⟩
    · rw [h]
      exact (hc.active l hl).2
    · exact h
    · rw [h] at hl
      cases hl
  · intro h'
    rw [hactive]
    rcases hstate with h | ⟨h, -⟩ | ⟨-, -, h⟩
    · exact hc.states (h ▸ h')
    · exact h
    · exfalso
      rcases h with h | h | h <;> rw [h] at h' <;> rcases h' with h' | h' <;> cases h'
  · intro conf hconf
    rw [hlocal] at hconf
    exact hc.linkLocal conf hconf
  · intro h'
    rw [hprobe, hactive, hlocal]
    rcases hstate with h | ⟨-, h⟩ | ⟨-, -, h⟩
    · exact hc.stopped (h ▸ h')
    · rcases h with h | h | h <;> rw [h] at h' <;> cases h'
    · rcases h with h | h | h <;> rw [h] at h' <;> cases h'
  · intro p hp
    rw [hprobe] at hp
    have hold := hc.probe p hp
    refine ⟨hold.sent, hold.done, ?_, ?_, ?_⟩
    · rw [haddress]
      exact hold.fresh
    · intro l hl
      obtain ⟨hsound, hsame, hstate'⟩ := hold.leased l hl
      refine ⟨hsound, hsame, ?_⟩
      rcases hstate with h | ⟨-, h⟩ | ⟨-, h, -⟩
      · rwa [h]
      · exact h
      · rw [h p hp] at hl
        cases hl
    · rw [hactive, hlocal]
      exact hold.local_
  · unfold Held at hl
    rw [hactive, hprobe] at hl
    exact hl

/-- A client that gives up its lease, and maybe its link-local address, stays sound and is calm:
nothing is probed for then, and no address is gained. -/
theorem Calm.clear (hc : c.Sound) (hmac : c'.mac = c.mac) (hactive : c'.active = none)
    (hlocal : c'.linkLocal = c.linkLocal ∨ c'.linkLocal = none) (hprobe : c'.probe = none)
    (hoffers : ∀ l ∈ c'.offers, l.Sound)
    (hstate : c'.state = .selecting ∨ c'.state = .requesting ∨ c'.state = .reboot ∨
      c'.state = .bound ∨ c'.state = .stopped ∧ c'.linkLocal = none)
    (hkeep : c.active = none ∨ c.linkLocal = none) : Calm acked c c' := by
  have haddress : c'.address = none ∨ c'.address = c.address := by
    unfold Client.address Client.configuration
    rw [hactive]
    rcases hlocal with h | h
    · rcases hkeep with h' | h'
      · rw [h, h']
        exact .inr rfl
      · rw [h, h']
        exact .inl rfl
    · rw [h]
      exact .inl rfl
  refine ⟨⟨.inl hactive, ?_, ?_, ?_, hoffers, ?_, ?_⟩, hmac, haddress, .inl hprobe, fun l hl => ?_⟩
  · intro l hl
    rw [hactive] at hl
    cases hl
  · intro h'
    exfalso
    rcases hstate with h | h | h | h | ⟨h, -⟩
      <;> rw [h] at h' <;> rcases h' with h' | h' <;> cases h'
  · intro conf hconf
    rcases hlocal with h | h
    · rw [h] at hconf
      exact hc.linkLocal conf hconf
    · rw [h] at hconf
      cases hconf
  · intro h'
    refine ⟨hprobe, hactive, ?_⟩
    rcases hstate with h | h | h | h | ⟨-, h⟩
    · rw [h] at h'
      cases h'
    · rw [h] at h'
      cases h'
    · rw [h] at h'
      cases h'
    · rw [h] at h'
      cases h'
    · exact h
  · intro p hp
    rw [hprobe] at hp
    cases hp
  · rcases hl with hl | ⟨p, hp, -⟩
    · rw [hactive] at hl
      cases hl
    · rw [hprobe] at hp
      cases hp

/-! ## Calm computations -/

/-- A computation that is calm and does not panic, whatever its outcome is. -/
def Gentle (acked : Lease → Prop) (m : Call α) (w : World) : Prop :=
  Act.Outcome m w (fun _ t => Calm acked w.client t.client)
    fun e t => e ≠ .panic ∧ Calm acked w.client t.client

/-- A result without an effect is gentle. -/
theorem gentle_pure (a : α) (hc : w.client.Sound) : Gentle acked (pure a) w := .refl hc

/-- Gentle computations, one after the other, are gentle. -/
theorem Gentle.bind {m : Call α} {f : α → Call β} (hm : Gentle acked m w)
    (hf : ∀ a t, Calm acked w.client t.client → Gentle acked (f a) t) : Gentle acked
    (m >>= f) w := by
  refine Act.Outcome.bind hm fun a t ht => (hf a t ht).mono ?_ ?_
  · exact fun _ _ h => ht.trans h
  · exact fun _ _ h => ⟨h.1, ht.trans h.2⟩

/-- A change of the result of a gentle computation is gentle. -/
theorem Gentle.map {m : Call α} (f : α → β) (hm : Gentle acked m w) : Gentle acked (f <$> m) w :=
  Gentle.bind hm fun _ _ h => gentle_pure _ h.sound

/-- A calm change is gentle. -/
theorem gentle_change {f : Client → Client} (h : Calm acked w.client (f w.client)) :
    Gentle acked (change f) w := h

/-- A computation goes on with the client that was changed. -/
theorem outcome_change_bind {f : Client → Client} {k : Unit → Call β} {Q : β → World → Prop}
    {F : Fault → World → Prop} : Act.Outcome (change f >>= k) w Q F ↔
      Act.Outcome (k ()) { w with client := f w.client } Q F := Iff.rfl

/-- A change ends with the client that was changed. -/
theorem outcome_change {f : Client → Client} {Q : Unit → World → Prop} {F : Fault → World → Prop} :
    Act.Outcome (change f) w Q F ↔ Q () { w with client := f w.client } := Iff.rfl

/-- A computation goes on with the client that it looks at. -/
theorem outcome_look_bind {k : Client → Call β} {Q : β → World → Prop} {F : Fault → World → Prop} :
    Act.Outcome (look >>= k) w Q F ↔ Act.Outcome (k w.client) w Q F := Iff.rfl

/-- A change, and what comes after it. -/
theorem gentle_change_bind {f : Client → Client} {k : Unit → Call β}
    (h : Calm acked w.client (f w.client))
    (hk : ∀ t : World, t.client = f w.client → Gentle acked (k ()) t) : Gentle acked
    (change f >>= k) w := by
  refine outcome_change_bind.2 ((hk { w with client := f w.client } rfl).mono ?_ ?_)
  · exact fun _ _ h' => h.trans h'
  · exact fun _ _ h' => ⟨h'.1, h.trans h'.2⟩

/-- Drawing a number ends with a number in range, or with the error of the generator; the client
stays. -/
theorem outcome_sample {max : Nat} {Q : Nat → World → Prop} {F : Fault → World → Prop}
    (hok : ∀ x t, x ≤ max → t.client = w.client → Q x t)
    (herror : ∀ e t, t.client = w.client → F (.io e) t) : Act.Outcome (sample max) w Q F := by
  cases hs : w.draw.sample w.used max with
  | ok x =>
    have hle : x ≤ max := by
      unfold Random.sample at hs
      cases hr : w.draw w.used max with
      | error e =>
        rw [hr] at hs
        cases hs
      | ok y =>
        rw [hr] at hs
        cases hs
        exact Nat.le_of_lt_succ (Nat.mod_lt y (Nat.succ_pos max))
    refine (Act.outcome_of_ok (a := x) (t := { w with used := w.used + 1 }) ?_).2
      (hok x { w with used := w.used + 1 } hle rfl)
    unfold sample
    rw [hs]
    rfl
  | error e =>
    refine (Act.outcome_of_error (e := .io e) (t := { w with used := w.used + 1 }) ?_).2
      (herror e { w with used := w.used + 1 } rfl)
    unfold sample
    rw [hs]
    rfl

/-- A computation is gentle if it is so with every number that may be drawn. Drawing changes nothing
of the client, and a failure of it is no panic. -/
theorem gentle_sample_bind {max : Nat} {k : Nat → Call β} (hc : w.client.Sound)
    (hk : ∀ x t, x ≤ max → t.client = w.client → Gentle acked (k x) t) : Gentle
    acked (sample max >>= k) w := by
  refine Act.Outcome.bind (Q := fun x t => x ≤ max ∧ t.client = w.client)
    (outcome_sample (fun x t hx ht => ⟨hx, ht⟩) ?_) ?_
  · intro e t ht
    rw [ht]
    exact ⟨Fault.noConfusion, .refl hc⟩
  · rintro x t ⟨hx, ht⟩
    have := hk x t hx ht
    unfold Gentle at this
    rwa [ht] at this

/-- A new transaction is gentle. -/
theorem gentle_transaction (hc : w.client.Sound) : Gentle acked (transaction now) w :=
  gentle_sample_bind hc fun _ _ _ ht => gentle_change
    (.congr (ht ▸ hc) rfl rfl rfl rfl (ht ▸ hc.offers) (.inl rfl))

/-- A client that has given everything up. -/
def cleared (c : Client) : Client := { c with
  active := none, selected := none, offers := [], probe := none, state := .selecting }

/-- A restart is calm from wherever clearing the client is. -/
theorem restart_outcome {c₀ : Client} (hclear : Calm acked c₀ w.client.cleared) :
    Act.Outcome (restart now) w (fun _ t => Calm acked c₀ t.client)
      fun e t => e ≠ .panic ∧ Calm acked c₀ t.client := by
  have hnext : Gentle acked (transaction now) { w with client := w.client.cleared } :=
    gentle_transaction hclear.sound
  refine outcome_change_bind.2 (hnext.mono ?_ ?_)
  · exact fun _ _ h => hclear.trans h
  · exact fun _ _ h => ⟨h.1, hclear.trans h.2⟩

/-- A restart is gentle. -/
theorem gentle_restart (hc : w.client.Sound) : Gentle acked (restart now) w :=
  restart_outcome (.clear hc rfl rfl (.inl rfl) rfl (fun _ h =>
    absurd h List.not_mem_nil) (.inl rfl)
    hc.exclusive)

/-- A computation that goes on from a state of which more is known. -/
theorem Gentle.bindWith {m : Call α} {f : α → Call β} {Q : α → World → Prop} (hm : Gentle acked m w)
    (hQ : Act.Outcome m w Q fun _ _ => True)
    (hf : ∀ a t, Calm acked w.client t.client → Q a t → Gentle acked (f a) t) :
    Gentle acked (m >>= f) w := by
  refine Act.Outcome.bind ((Act.Outcome.and hm hQ).mono (fun _ _ h => h) fun _ _ h => h.1) ?_
  rintro a t ⟨ht, hq⟩
  refine (hf a t ht hq).mono ?_ ?_
  · exact fun _ _ h => ht.trans h
  · exact fun _ _ h => ⟨h.1, ht.trans h.2⟩

/-- A restart leaves no lease and no probe. -/
theorem restart_idle : Act.Outcome (restart now) w
    (fun _ t => t.client.active = none ∧ t.client.probe = none ∧ t.client.state = .selecting)
    fun _ _ => True := by
  refine outcome_change_bind.2 (Act.Outcome.bind (Q := fun _ t => t.client.active = none ∧
    t.client.probe = none ∧ t.client.state = .selecting)
    (outcome_sample ?_ fun _ _ _ => trivial) ?_)
  · intro _ t _ ht
    rw [ht]
    exact ⟨rfl, rfl, rfl⟩
  · intro _ t h
    exact outcome_change.2 h

/-- Restoring a lease is gentle: it is the lease that the client had. -/
theorem gentle_restore {lease : Lease} (hc : w.client.Sound) :
    Gentle acked (restore lease now) w := by
  refine Gentle.bindWith (gentle_restart hc) restart_idle ?_
  rintro _ t ht ⟨hactive, hprobe, -⟩
  refine Act.Outcome.branch (fun _ => gentle_change ?_) fun _ => gentle_pure _ ht.sound
  refine .congr ht.sound rfl rfl rfl rfl ht.sound.offers
    (.inr (.inr ⟨hactive, ?_, .inr (.inr rfl)⟩))
  intro p hp
  rw [hprobe] at hp
  cases hp

/-- A change of the times of a client. -/
theorem Calm.times (hc : c.Sound) (next fallbackAt : Nat) :
    Calm acked c { c with next, fallbackAt } :=
  .congr hc rfl rfl rfl rfl hc.offers (.inl rfl)

/-- Postponing a message is gentle. -/
theorem gentle_postpone (hc : w.client.Sound) : Gentle acked (postpone now) w :=
  gentle_sample_bind hc fun _ t _ ht => gentle_change (.times (ht ▸ hc) _ t.client.fallbackAt)

/-- Remembering an offer is calm, since an offer grants nothing. The offers that are remembered are
those before and the new one, which was read from a message. -/
theorem offer_calm {m : Message} (hserver : unicast m.server = true) (hc : c.Sound) :
    Calm acked c (offer m now c) := by
  unfold offer
  split
  · exact .refl hc
  · next l hl =>
    split
    · exact .refl hc
    · refine .congr hc rfl rfl rfl rfl ?_ (.inl rfl)
      intro l' hl'
      rcases List.mem_append.1 hl' with h | h
      · exact hc.offers l' h
      · rw [List.mem_singleton.1 h]
        exact (Message.lease_sound hserver hl).1

/-- A lease is acknowledged for the address that is used: the address stays the same, so a probe in
progress is still for a fresh address. -/
theorem acknowledge_active {lease l : Lease} (hlease : lease.Sound) (hacked : acked lease)
    (hc : c.Sound) (hl : c.active = some l) (haddr : l.config.address = lease.config.address) :
    Calm acked c { c with
      active := some lease, selected := none, offers := [], state := .bound } := by
  have hlocal : c.linkLocal = none :=
    hc.exclusive.resolve_left (by rw [hl]; exact Option.some_ne_none l)
  have haddress : c.address = some lease.config.address := by
    unfold Client.address Client.configuration
    rw [hl, ← haddr]
    rfl
  refine ⟨⟨.inr hlocal, ?_, ?_, hc.linkLocal, ?_, ?_, ?_⟩, rfl, .inr haddress.symm,
    .inr (.inl rfl), ?_⟩
  · intro l' hl'
    cases hl'
    exact ⟨hlease, .inl rfl⟩
  · exact fun _ => ⟨lease, rfl⟩
  · exact fun _ h => absurd h List.not_mem_nil
  · exact fun h => Phase.noConfusion h
  · intro p hp
    have hold := hc.probe p hp
    refine ⟨hold.sent, hold.done, ?_, fun l' hl' => ?_, ?_⟩
    · intro hsent h
      refine hold.fresh hsent ?_
      rw [haddress]
      exact h
    · obtain ⟨hsound, hsame, -⟩ := hold.leased l' hl'
      exact ⟨hsound, hsame, .inl rfl⟩
    · intro hsent hnone
      have := (hold.local_ hsent hnone).2.1
      rw [hl] at this
      cases this
  · rintro l' (hl' | hl')
    · cases hl'
      exact .inr hacked
    · exact .inl (.inr hl')

/-- A lease is acknowledged for an address that is probed for first. The address is not the one in
use: a lease in use has another one, and link-local addresses are not leased
(`Lease.Sound.foreign`). -/
theorem acknowledge_probe {lease : Lease} {next : Nat} (hlease : lease.Sound) (hacked : acked lease)
    (hc : c.Sound) (hnew : ∀ l, c.active = some l → l.config.address ≠ lease.config.address) :
    Calm acked c { c with
      probe := some ⟨lease.config.address, some lease, 0, next⟩
      selected := none, offers := [], state := .bound } := by
  have hfresh : c.address ≠ some lease.config.address := by
    unfold Client.address Client.configuration
    cases hactive : c.active with
    | some l => exact fun h => hnew l hactive (Option.some.inj h)
    | none =>
      intro h
      obtain ⟨conf, hconf, haddr⟩ := Option.map_eq_some_iff.1 h
      obtain ⟨x, hx, rfl⟩ := hc.linkLocal conf hconf
      have hforeign := hlease.foreign
      rw [← haddr, (linkLocalAddress_fit hx).1] at hforeign
      cases hforeign
  refine ⟨⟨hc.exclusive, fun l hl => ⟨(hc.active l hl).1, .inl rfl⟩, ?_, hc.linkLocal, ?_, ?_, ?_⟩,
    rfl, .inr rfl, .inr (.inr ⟨_, rfl, rfl⟩), ?_⟩
  · rintro (h | h) <;> cases h
  · exact fun _ h => absurd h List.not_mem_nil
  · exact fun h => Phase.noConfusion h
  · intro p hp
    cases hp
    refine ⟨Nat.zero_le 4, ?_, fun _ => hfresh, ?_, ?_⟩
    · intro h
      cases h
    · intro l hl
      cases hl
      exact ⟨hlease, rfl, .inl rfl⟩
    · intro _ h
      cases h
  · rintro l (hl | ⟨p, hp, hl⟩)
    · exact .inl (.inl hl)
    · cases hp
      cases hl
      exact .inr hacked

/-- Taking a lease is gentle if it was acknowledged and is well formed. If the address is the same,
the lease is renewed in place; otherwise it is probed for first. -/
theorem gentle_acknowledge {lease : Lease} (hlease : lease.Sound) (hacked : acked lease)
    (hc : w.client.Sound) : Gentle acked (acknowledge lease now) w := by
  unfold acknowledge
  refine outcome_look_bind.2 ?_
  split
  · exact gentle_pure _ hc
  · by_cases hsame : (w.client.active.any fun l => l.config.address == lease.config.address) = true
    · rw [if_pos hsame]
      obtain ⟨l, hl, haddr⟩ := (Option.any_eq_true _ _).1 hsame
      have haddr : l.config.address = lease.config.address := eq_of_beq haddr
      exact outcome_change_bind.2 (outcome_change.2 (acknowledge_active hlease hacked hc hl haddr))
    · rw [if_neg hsame]
      refine gentle_sample_bind hc fun delay t _ ht => ?_
      rw [← ht] at hsame
      refine outcome_change_bind.2 (outcome_change.2 (acknowledge_probe hlease hacked (ht ▸ hc) ?_))
      intro l hl haddr
      refine hsame ((Option.any_eq_true _ _).2 ⟨l, hl, ?_⟩)
      rw [haddr]
      exact beq_self_eq_true _

/-- An acknowledgement of the lease that a client awaits: a reply to its own exchange and Ethernet
address. A client that requests or renews takes it only from the server of the lease that it asked
for; one that checks an old lease or rebinds takes it from any server. -/
structure Acknowledges (c : Client) (packet : Bytes) (now : Nat) (l : Lease)
    (m : Message) : Prop where
  parsed : Message.parse packet = .ok m
  kind : m.kind = 5
  xid : m.xid = c.xid
  mac : m.mac = c.mac
  awaits : c.state = .requesting ∨ c.state = .reboot ∨ c.state = .renewing ∨ c.state = .rebinding
  server : c.state = .requesting ∨ c.state = .renewing →
    ∃ asked, c.prior = some asked ∧ asked.server = m.server
  lease : m.lease now c.prior = .ok l

/-- A client that does not refuse a message, and requests or renews a lease, asked its server for
it. -/
theorem prior_server {m : Message} (h : c.refuses m = false)
    (hstate : c.state = .requesting ∨ c.state = .renewing) :
    ∃ asked, c.prior = some asked ∧ asked.server = m.server := by
  have hasks : (c.state == .requesting || c.state == .renewing) = true := by
    rcases hstate with h | h <;> rw [h] <;> rfl
  unfold refuses at h
  rw [hasks, Bool.true_and] at h
  cases hp : c.prior with
  | none =>
    rw [hp] at h
    cases h
  | some asked =>
    rw [hp] at h
    exact ⟨asked, rfl, by simpa using h⟩

/-- The states in which a client waits for an acknowledgement. -/
theorem awaits_iff : c.awaits = true ↔
    c.state = .requesting ∨ c.state = .reboot ∨ c.state = .renewing ∨ c.state = .rebinding := by
  unfold awaits
  simp only [Bool.or_eq_true, beq_iff_eq, or_assoc]

/-- Receiving a message is gentle with respect to the leases that it acknowledges. The branches of
the function are followed: an offer is noted, a refusal starts anew, and an acknowledgement is used
or probed for first. -/
theorem gentle_receive {packet : Bytes} (hc : w.client.Sound)
    (hacked : ∀ l m, Acknowledges w.client packet now l m → acked l) :
    Gentle acked (receive packet now) w := by
  unfold receive
  refine outcome_look_bind.2 ?_
  cases hparse : Message.parse packet with
  | error e => exact gentle_pure _ hc
  | ok m =>
    have hserver := Message.parse_server hparse
    dsimp only
    refine Act.Outcome.branch (fun _ => gentle_pure _ hc) fun hours => ?_
    refine Act.Outcome.branch (fun _ => gentle_change (offer_calm hserver hc)) fun _ => ?_
    refine Act.Outcome.branch (fun _ => gentle_pure _ hc) fun hawaits => ?_
    refine Act.Outcome.branch (fun _ => ?_) fun _ => ?_
    · exact Gentle.bind (gentle_restart hc) fun _ t ht => gentle_postpone ht.sound
    · refine Act.Outcome.branch (fun _ => gentle_pure _ hc) fun hkind => ?_
      simp only [not_or, not_not, Bool.not_eq_false, Bool.not_eq_true] at hours hawaits hkind
      cases hlease : m.lease now w.client.prior with
      | error e => exact gentle_pure _ hc
      | ok l =>
        exact gentle_acknowledge (Message.lease_sound hserver hlease).1
          (hacked l m ⟨hparse, hkind, hours.1, hours.2, awaits_iff.1 hawaits.1,
            prior_server hawaits.2, hlease⟩) hc

/-- Letting a lease expire is gentle. -/
theorem gentle_expire (hc : w.client.Sound) : Gentle acked (expire now) w :=
  outcome_look_bind.2 (Act.Outcome.branch (fun _ => gentle_restart hc) fun _ => gentle_pure _ hc)

/-- Giving a lease up is gentle. -/
theorem gentle_abandon (hc : w.client.Sound) : Gentle acked (abandon now) w :=
  outcome_look_bind.2 (Act.Outcome.branch (fun _ => gentle_restart hc) fun _ => gentle_pure _ hc)

/-- A client with a lease asks for it again. -/
theorem Calm.ask (hc : c.Sound) {l : Lease} (hl : c.active = some l) {state : Phase}
    (hstate : state = .renewing ∨ state = .rebinding) : Calm acked c { c with state } :=
  .congr hc rfl rfl rfl rfl hc.offers (.inr (.inl ⟨⟨l, hl⟩, .inr hstate⟩))

/-- Asking for more time is gentle. The lease stays, and the state is the one of renewing or of
rebinding, both of which go with a lease. -/
theorem gentle_renew (hc : w.client.Sound) : Gentle acked (renew now) w := by
  unfold renew
  refine outcome_look_bind.2 ?_
  cases hl : w.client.active with
  | none => exact gentle_pure _ hc
  | some l =>
    refine Act.Outcome.branch (fun _ => ?_) fun _ => Act.Outcome.branch (fun _ => ?_) fun _ =>
      gentle_pure _ hc
    · have hask := (Calm.ask hc hl (.inr rfl) : Calm acked _ _)
      exact gentle_change_bind hask fun t ht => gentle_transaction (ht ▸ hask.sound)
    · have hask := (Calm.ask hc hl (.inl rfl) : Calm acked _ _)
      exact gentle_change_bind hask fun t ht => gentle_transaction (ht ▸ hask.sound)

/-- A client that uses no address and probes for none. -/
theorem configuration_none (h : c.configuration.isNone = true) :
    c.active = none ∧ c.linkLocal = none := by
  unfold configuration at h
  cases hl : c.active with
  | none =>
    rw [hl] at h
    exact ⟨rfl, Option.isNone_iff_eq_none.1 h⟩
  | some l =>
    rw [hl] at h
    cases h

/-- Falling back to an address of the link is gentle. It happens only without a probe and without an
address, so that the new probe is for an address that is not in use. -/
theorem gentle_fallback (hc : w.client.Sound) (hrun : w.client.state ≠ .stopped) :
    Gentle acked (fallback now) w := by
  unfold fallback
  refine outcome_look_bind.2 (Act.Outcome.branch ?_ fun _ => gentle_pure _ hc)
  rintro ⟨hprobe, hconf, -⟩
  obtain ⟨hactive, hlocal⟩ := configuration_none hconf
  refine gentle_sample_bind hc fun x t hx ht => gentle_sample_bind (ht ▸ hc) fun delay u _ hu =>
    gentle_change ?_
  have hu := hu.trans ht
  rw [hu]
  have haddress : w.client.address = none := by
    unfold Client.address Client.configuration
    rw [hactive, hlocal]
    rfl
  refine ⟨⟨hc.exclusive, hc.active, hc.states, hc.linkLocal, hc.offers, fun h => absurd h hrun, ?_⟩,
    rfl, .inr rfl, .inr (.inr ⟨_, rfl, rfl⟩), ?_⟩
  · intro p hp
    cases hp
    refine ⟨Nat.zero_le 4, fun _ => rfl, ?_, ?_, fun _ _ => ⟨⟨x, hx, rfl⟩, hactive, hlocal⟩⟩
    · intro _ h
      have h : w.client.address = some (linkLocalAddress x) := h
      rw [haddress] at h
      cases h
    · intro l hl
      cases hl
  · rintro l (hl | ⟨p, hp, hl⟩)
    · exact .inl (.inl hl)
    · cases hp
      cases hl

/-! ## Messages -/

/-- The fixed part of a message takes 240 octets. -/
theorem length_fixedFields (c : Client) (kind : UInt8) (ciaddr : Ipv4Addr) (now : Nat) :
    (c.fixedFields kind ciaddr now).length = 240 := by
  unfold fixedFields
  simp only [List.length_append, List.length_cons, List.length_nil, length_toBe, ciaddr.2, c.mac.2,
    List.length_replicate]

/-- The options of a message take at most 60 octets. Each of them is left out or has its fixed
length, and the longest message has all of them. -/
theorem length_options (c : Client) (kind : UInt8) (destination : Ipv4Addr) :
    (c.options kind destination).length ≤ 60 := by
  have hpart : ∀ (p : Prop) [Decidable p] (b : Bytes), (if p then b else []).length ≤ b.length := by
    intro p _ b
    split
    · exact Nat.le_refl _
    · exact Nat.zero_le _
  have hselected : ((c.selected.map (c.leaseOptions kind)).getD []).length ≤ 12 := by
    cases c.selected with
    | none => exact Nat.zero_le 12
    | some l =>
      have haddr : ([50, 4] ++ l.config.address.1).length = 6 := by
        rw [List.length_append, l.config.address.2]
        rfl
      have hserver : ([54, 4] ++ l.server.1).length = 6 := by
        rw [List.length_append, l.server.2]
        rfl
      show (c.leaseOptions kind l).length ≤ 12
      unfold leaseOptions
      rw [List.length_append]
      have h1 := hpart (kind = 3 ∨ kind = 4) ([50, 4] ++ l.config.address.1)
      have h2 := hpart (c.state = Phase.requesting ∨ kind = 4) ([54, 4] ++ l.server.1)
      omega
  have hdestination : ([54, 4] ++ destination.1).length = 6 := by
    rw [List.length_append, destination.2]
    rfl
  have h3 := hpart (kind = 7) ([54, 4] ++ destination.1)
  have h4 := hpart (kind ≠ 4 ∧ kind ≠ 7) [55, 8, 1, 3, 6, 15, 119, 121, 58, 59, 57, 2, 0x10, 0x00]
  unfold options
  simp only [List.length_append, List.length_cons, List.length_nil, c.mac.2] at hselected h3 h4 ⊢
  omega

/-- Padding fills up to a length. -/
theorem length_padTo {n : Nat} {b : Bytes} (h : b.length ≤ n) : (padTo n b).length = n := by
  unfold padTo
  rw [List.length_append, List.length_replicate]
  omega

/-- Every message is padded to 300 octets. -/
theorem length_payload (c : Client) (kind : UInt8) (ciaddr destination : Ipv4Addr) (now : Nat) :
    (c.payload kind ciaddr destination now).length = 300 := by
  refine length_padTo ?_
  rw [List.length_append, length_fixedFields]
  have := c.length_options kind destination
  omega

/-- A datagram takes eight octets more than its contents. -/
theorem length_datagram (source destination : Ipv4Addr) (b : Bytes) :
    (datagram source destination b).length = b.length + 8 := by
  have hlen : ([0, 68, 0, 67] ++ toBe 2 (b.length + 8) ++ [0, 0] ++ b).length = b.length + 8 := by
    simp only [List.length_append, List.length_cons, List.length_nil, length_toBe]
    omega
  unfold datagram
  rw [length_overwrite, hlen]
  rw [hlen, length_toBe]
  omega

/-- A message is always written, and goes to all or to the server of the lease. Nothing in it is
longer than a packet may be (`length_payload`), and a direct message is sent only with a lease in
use. -/
theorem message_eq {kind : UInt8} (now : Nat)
    (hdirect : c.direct kind = true → ∃ l, c.active = some l) :
    ∃ destination packet, (c.direct kind = false ∧ destination = broadcast ∨
        ∃ l, c.direct kind = true ∧ c.active = some l ∧ destination = l.server) ∧
      encode (c.ciaddr kind) destination 17 64 (datagram (c.ciaddr kind) destination
        (c.payload kind (c.ciaddr kind) destination now)) = .ok packet ∧
      c.message kind now = .ok ⟨if c.direct kind then .unicast else .broadcast, packet⟩ := by
  have hencode : ∀ destination, ∃ packet, encode (c.ciaddr kind) destination 17 64
      (datagram (c.ciaddr kind) destination (c.payload kind (c.ciaddr kind) destination now)) =
      .ok packet := by
    intro destination
    unfold encode
    rw [if_neg]
    · exact ⟨_, rfl⟩
    · rw [length_datagram, length_payload]
      omega
  unfold message
  cases hd : c.direct kind with
  | false =>
    obtain ⟨packet, hpacket⟩ := hencode broadcast
    refine ⟨broadcast, packet, .inl ⟨rfl, rfl⟩, hpacket, ?_⟩
    rw [if_neg Bool.false_ne_true]
    dsimp only
    rw [hpacket]
  | true =>
    obtain ⟨l, hl⟩ := hdirect hd
    obtain ⟨packet, hpacket⟩ := hencode l.server
    refine ⟨l.server, packet, .inr ⟨l, rfl, hl, rfl⟩, hpacket, ?_⟩
    rw [if_pos rfl, hl]
    dsimp only [Option.map_some]
    rw [hpacket]

/-- Sending succeeds and leaves the client, since every message fits a packet. -/
theorem send_outcome {kind : UInt8}
    (hdirect : w.client.direct kind = true → ∃ l, w.client.active = some l) :
    Act.Outcome (send kind now) w (fun _ t => t = w) fun _ _ => False := by
  obtain ⟨destination, packet, -, -, hmessage⟩ := message_eq now hdirect
  have hrun :
      send kind now w = (.ok ⟨if w.client.direct kind then .unicast else .broadcast, packet⟩,
        w) := by
    unfold send
    rw [hmessage]
  exact (Act.outcome_of_ok hrun).2 rfl

/-- Sending is gentle. -/
theorem gentle_send {kind : UInt8} (hc : w.client.Sound)
    (hdirect : w.client.direct kind = true → ∃ l, w.client.active = some l) :
    Gentle acked (send kind now) w := by
  refine (send_outcome hdirect).mono ?_ ?_
  · rintro _ t rfl
    exact .refl hc
  · exact fun _ _ h => h.elim

/-- A client that renews its lease has one. -/
theorem Sound.direct (hc : c.Sound) {kind : UInt8} (hkind : kind ≠ 7) (hd : c.direct kind = true) :
    ∃ l, c.active = some l := by
  unfold Client.direct at hd
  simp only [Bool.or_eq_true, Bool.and_eq_true, beq_iff_eq] at hd
  rcases hd with h | ⟨-, h⟩
  · exact absurd h hkind
  · exact hc.states (.inl h)

/-- Waiting for an answer is gentle. -/
theorem gentle_patience (hc : w.client.Sound) : Gentle acked (patience now) w := by
  unfold patience
  refine outcome_look_bind.2 (Act.Outcome.branch (fun hstate => ?_) fun _ => ?_)
  · obtain ⟨l, hl⟩ := hc.states hstate
    rw [hl]
    exact gentle_pure _ hc
  · refine gentle_sample_bind hc fun x t _ ht => ?_
    have hcalm : Calm acked t.client { t.client with
        retry := min (t.client.retry * 2) 64000 } :=
      .congr (ht ▸ hc) rfl rfl rfl rfl (ht ▸ hc.offers) (.inl rfl)
    exact gentle_change_bind hcalm fun u hu => gentle_pure _ (hu ▸ hcalm.sound)

/-- A client that selects an offer has no lease, so no condition on leases is touched. -/
theorem Calm.select (now : Nat) (hc : c.Sound) (hstate : c.state = .selecting) :
    Calm acked c { c with
    selected := maxByKey offerKey c.offers, offers := [], state := .requesting
    started := now, retry := 4000 } := by
  refine .congr hc rfl rfl rfl rfl (fun _ h => absurd h List.not_mem_nil)
    (.inr (.inr ⟨?_, fun p hp => ?_, .inr (.inl rfl)⟩))
  · cases hactive : c.active with
    | none => rfl
    | some l =>
      have := (hc.active l hactive).2
      rw [hstate] at this
      rcases this with h | h | h <;> cases h
  · cases hlease : p.lease with
    | none => rfl
    | some l =>
      have := ((hc.probe p hp).leased l hlease).2.2
      rw [hstate] at this
      rcases this with h | h | h <;> cases h

/-- Asking the next question is gentle. An offer is selected first, or the client starts anew, or it
only sends; each of the three is gentle. -/
theorem gentle_converse (hc : w.client.Sound) : Gentle acked (converse now) w := by
  have hsend : ∀ t : World, t.client.Sound → Gentle acked (do
      let c ← look
      let out ← send (if c.state = .selecting then 1 else 3) now
      let delay ← patience now
      change fun c => { c with next := satAdd now delay }
      pure [out]) t := by
    intro t ht
    refine outcome_look_bind.2 (Gentle.bind (gentle_send ht (ht.direct ?_)) fun out u hu =>
      Gentle.bind (gentle_patience hu.sound) fun delay v hv => ?_)
    · split <;> decide
    · have hcalm := (Calm.times hv.sound (satAdd now delay) v.client.fallbackAt : Calm acked _ _)
      exact gentle_change_bind hcalm fun x hx => gentle_pure _ (hx ▸ hcalm.sound)
  unfold converse
  refine outcome_look_bind.2 (Act.Outcome.branch (fun _ => gentle_pure _ hc) fun _ => ?_)
  refine Act.Outcome.branch (fun hselect => ?_) fun _ =>
    Act.Outcome.branch (fun _ => ?_) fun _ => hsend w hc
  · have hcalm := (Calm.select now hc hselect.1 : Calm acked _ _)
    exact gentle_change_bind hcalm fun t ht => hsend t (ht ▸ hcalm.sound)
  · exact Gentle.bind (gentle_restart hc) fun _ t ht => hsend t ht.sound

/-! ## Stopping and conflicts -/

/-- Stopping is gentle. A message to the server is sent first if there is a lease; then the client
is cleared, so it holds none. -/
theorem gentle_stop (hc : w.client.Sound) : Gentle acked (stop now) w := by
  have hclear : ∀ (out : List Output) (t : World), t.client.Sound → Gentle acked (do
      change fun c => { c with
        state := .stopped, active := none, linkLocal := none, selected := none, probe := none,
          offers := [] }
      pure out : Call (List Output)) t := by
    intro out t ht
    have hcalm : Calm acked t.client { t.client with
        state := .stopped, active := none, linkLocal := none, selected := none, probe := none
        offers := [] } :=
      .clear ht rfl rfl (.inr rfl) rfl (fun _ h => absurd h List.not_mem_nil)
        (.inr (.inr (.inr (.inr ⟨rfl, rfl⟩)))) ht.exclusive
    exact gentle_change_bind hcalm fun u hu => gentle_pure _ (hu ▸ hcalm.sound)
  unfold stop
  refine outcome_look_bind.2 (Act.Outcome.branch (fun hactive => ?_) fun _ => hclear [] w hc)
  obtain ⟨l, hl⟩ := Option.isSome_iff_exists.1 hactive
  exact Gentle.bind (Gentle.map _ (gentle_send hc fun _ => ⟨l, hl⟩)) fun out t ht =>
    hclear out t ht.sound

/-- A change of the link is gentle. -/
theorem gentle_setLink {up : Bool} (hc : w.client.Sound) : Gentle acked (setLink up now) w := by
  unfold setLink
  refine outcome_look_bind.2 (Act.Outcome.branch (fun _ => ?_) fun _ =>
    Act.Outcome.branch (fun _ => ?_) fun _ =>
    gentle_pure _ hc)
  · refine Gentle.bind (gentle_restart hc) fun _ t ht => Gentle.bind (gentle_postpone ht.sound)
      fun _ u hu => gentle_change (.times hu.sound u.client.next _)
  · exact gentle_change (.clear hc rfl rfl (.inr rfl) rfl (fun _ h => absurd h List.not_mem_nil)
      (.inr (.inr (.inr (.inr ⟨rfl, rfl⟩)))) hc.exclusive)

/-- A client without a lease renews none. In the other states the invariant of the client gives it a
lease. -/
theorem Sound.unleased (hc : c.Sound) (hactive : c.active = none) (hrun : c.state ≠ .stopped) :
    c.state = .selecting ∨ c.state = .requesting ∨ c.state = .reboot ∨ c.state = .bound := by
  cases hstate : c.state with
  | selecting => exact .inl rfl
  | requesting => exact .inr (.inl rfl)
  | reboot => exact .inr (.inr (.inl rfl))
  | bound => exact .inr (.inr (.inr rfl))
  | renewing =>
    obtain ⟨l, hl⟩ := hc.states (.inl hstate)
    rw [hactive] at hl
    cases hl
  | rebinding =>
    obtain ⟨l, hl⟩ := hc.states (.inr hstate)
    rw [hactive] at hl
    cases hl
  | stopped => exact absurd hstate hrun

/-- Declining an address is calm from wherever clearing the client is. The message names the lease
that is declined, and the client is cleared after it. -/
theorem decline_outcome {c₀ : Client} {lease : Lease} (hclear : Calm acked c₀ w.client.cleared) :
    Act.Outcome (decline lease now) w (fun _ t => Calm acked c₀ t.client)
      fun e t => e ≠ .panic ∧ Calm acked c₀ t.client := by
  unfold decline
  have hdirect : ∀ c : Client, c.direct 4 = true → ∃ l, c.active = some l := fun c h =>
    absurd (show false = true from h) Bool.false_ne_true
  refine outcome_change_bind.2 (Act.Outcome.bind ((send_outcome (hdirect _)).mono (fun _ _ h => h)
    fun _ _ h => h.elim) ?_)
  rintro out t rfl
  refine Act.Outcome.bind (restart_outcome hclear) fun _ t ht => ?_
  have hcalm := (Calm.times ht.sound (satAdd now 10000) t.client.fallbackAt : Calm acked _ _)
  exact outcome_change_bind.2 (ht.trans hcalm)

/-- Giving up an address after a conflict is gentle: a lease is declined to its server, and a
link-local address is replaced by one that is probed for anew. -/
theorem gentle_giveUp {a : Arp} (hc : w.client.Sound) (hrun : w.client.state ≠ .stopped) :
    Gentle acked (giveUp a now) w := by
  unfold giveUp
  refine outcome_look_bind.2 (outcome_change_bind.2 ?_)
  cases hlease : w.client.forfeit a with
  | some lease =>
    exact decline_outcome (.clear hc rfl rfl (.inl rfl) rfl (fun _ h =>
      absurd h List.not_mem_nil) (.inl rfl)
      hc.exclusive)
  | none =>
    have hactive : w.client.active = none := by
      unfold forfeit at hlease
      by_cases hcand : w.client.candidate a = true
      · rw [if_pos hcand] at hlease
        obtain ⟨p, hp, hmatch⟩ := (Option.any_eq_true _ _).1 hcand
        rw [hp] at hlease
        exact ((hc.probe p hp).local_ (of_decide_eq_true (Bool.and_eq_true_iff.1 hmatch).1)
          hlease).2.1
      · rwa [if_neg hcand] at hlease
    have hnone : (if w.client.candidate a then w.client.active else none) = none := by
      rw [hactive, ite_self]
    have hcalm : Calm acked w.client (relent now { w.client with
        probe := none, active := if w.client.candidate a then w.client.active else none
        defendedAt := none }) := by
      refine .clear hc rfl hnone (.inr rfl) rfl hc.offers ?_ (.inl hactive)
      rcases hc.unleased hactive hrun with h | h | h | h
      · exact .inl h
      · exact .inr (.inl h)
      · exact .inr (.inr (.inl h))
      · exact .inr (.inr (.inr (.inl h)))
    exact outcome_change_bind.2 hcalm

/-- Receiving an ARP message is gentle. The message is ignored, or the address is defended, or the
client gives it up. -/
theorem gentle_receiveArp {frame : Bytes} (hc : w.client.Sound) :
    Gentle acked (receiveArp frame now) w := by
  unfold receiveArp
  refine outcome_look_bind.2 ?_
  cases hparse : Arp.parse frame with
  | error e => exact gentle_pure _ hc
  | ok a =>
    refine Act.Outcome.branch (fun _ => gentle_pure _ hc) fun hours => ?_
    simp only [not_or] at hours
    cases hclaimed : w.client.claimed a with
    | none => exact Act.Outcome.branch (fun _ => gentle_giveUp hc hours.2) fun _ => gentle_pure _ hc
    | some address =>
      refine Act.Outcome.branch (fun _ => ?_) fun _ => gentle_giveUp hc hours.2
      have hcalm : Calm acked w.client { w.client with defendedAt := some now } :=
        .congr hc rfl rfl rfl rfl hc.offers (.inl rfl)
      exact gentle_change_bind hcalm fun t ht => gentle_pure _ (ht ▸ hcalm.sound)

/-! ## Probes -/

/-- What the next ARP message for an address changes. -/
inductive Ticked (p : Probe) (now : Nat) (c : Client) : Client → Prop
  | again (delay : Nat) (few : p.sent + 1 < 3) : Ticked p now c { c with
      probe := some { p with sent := p.sent + 1, next := satAdd now (1000 + delay) } }
  | last (third : p.sent + 1 = 3) : Ticked p now c { c with
      probe := some { p with sent := p.sent + 1, next := satAdd now 2000 } }
  | use (fourth : p.sent + 1 = 4) : Ticked p now c (adopt p { c with
      probe := some { p with sent := p.sent + 1, next := satAdd now 2000 } })
  | done (fifth : p.sent + 1 = 5) : Ticked p now c { c with probe := none }

/-- What `tick` does: nothing if no probe is due, and otherwise one message and one step of the
probe. It can fail only where a delay is drawn, and then the probe was counted already. -/
theorem tick_spec (hc : w.client.Sound) : Act.Outcome (tick now) w
    (fun out t => out = [] ∧ t.client = w.client ∨ ∃ p, w.client.probe = some p ∧ p.next ≤ now ∧
      out = [askAll w.client.mac (if p.sent < 3 then unspecified else p.address) p.address] ∧
      Ticked p now w.client t.client)
    fun e t => e ≠ .panic ∧ ∃ p, w.client.probe = some p ∧ p.sent < 3 ∧ t.client = { w.client with
      probe := some { p with sent := p.sent + 1 } } := by
  unfold tick
  refine outcome_look_bind.2 ?_
  cases hprobe : w.client.probe with
  | none => exact .inl ⟨rfl, rfl⟩
  | some p =>
    refine Act.Outcome.branch (fun _ => .inl ⟨rfl, rfl⟩) fun hdue => outcome_change_bind.2 ?_
    have hdue := Nat.le_of_not_lt hdue
    have hsent := (hc.probe p hprobe).sent
    by_cases hfew : p.sent + 1 < 3
    · rw [if_pos hfew, map_eq_pure_bind, bind_assoc]
      refine Act.Outcome.bind (Q := fun _ t => t.client = { w.client with
        probe := some { p with sent := p.sent + 1 } }) (outcome_sample (fun _ _ _ ht => ht) ?_) ?_
      · exact fun e t ht => ⟨Fault.noConfusion, p, rfl, by omega, ht⟩
      · intro delay t ht
        rw [pure_bind, if_neg (by omega), if_neg (by omega)]
        refine .inr ⟨p, rfl, hdue, rfl, ?_⟩
        show Ticked p now w.client { t.client with
          probe := some { p with sent := p.sent + 1, next := satAdd now (1000 + delay) } }
        rw [ht]
        exact .again delay hfew
    · rw [if_neg hfew, pure_bind]
      refine outcome_change_bind.2 ?_
      rcases show p.sent + 1 = 3 ∨ p.sent + 1 = 4 ∨ p.sent + 1 = 5 by omega with h | h | h
      · rw [if_neg (by omega), if_neg (by omega)]
        exact .inr ⟨p, rfl, hdue, rfl, .last h⟩
      · rw [if_pos h, if_neg (by omega)]
        exact .inr ⟨p, rfl, hdue, rfl, .use h⟩
      · rw [if_neg (by omega), if_pos h]
        exact .inr ⟨p, rfl, hdue, rfl, .done h⟩

/-- An address that is asked for once more. Before the fourth message nothing is adopted, so only
the number of messages changes. -/
theorem Sound.advance (hc : c.Sound) {p : Probe} (hp : c.probe = some p) (hfew : p.sent < 3)
    (next : Nat) :
    Sound { c with probe := some { p with sent := p.sent + 1, next } } := by
  have hold := hc.probe p hp
  refine ⟨hc.exclusive, hc.active, hc.states, hc.linkLocal, hc.offers, fun h => ?_,
    fun p' hp' => ?_⟩
  · rw [(hc.stopped h).1] at hp
    cases hp
  · cases hp'
    have hlt : p.sent < 4 := Nat.lt_succ_of_lt hfew
    exact ⟨Nat.le_succ_of_le hfew, fun h => absurd (Nat.succ.inj h) (Nat.ne_of_lt hfew),
      fun _ => hold.fresh hlt, hold.leased, fun _ => hold.local_ hlt⟩

/-- What is used after it was probed for leaves the client sound: a lease becomes the one in use,
and the link-local address goes; without a lease, the link-local address becomes the one in use. -/
theorem Sound.adopt (hc : c.Sound) {p : Probe} (hp : c.probe = some p) (hsent : p.sent = 3)
    (next : Nat) :
    Sound (adopt p { c with probe := some { p with sent := p.sent + 1, next } }) := by
  have hold := hc.probe p hp
  have hlt : p.sent < 4 := by omega
  unfold Client.adopt
  cases hlease : p.lease with
  | some l =>
    obtain ⟨hsound, -, hstate⟩ := hold.leased l hlease
    refine ⟨.inr rfl, ?_, fun _ => ⟨l, rfl⟩, ?_, hc.offers, fun h => ?_, fun p' hp' => ?_⟩
    · intro l' hl'
      cases hl'
      exact ⟨hsound, hstate⟩
    · intro conf hconf
      cases hconf
    · have h : c.state = .stopped := h
      rw [(hc.stopped h).1] at hp
      cases hp
    · cases hp'
      refine ⟨by show p.sent + 1 ≤ 4; omega, fun _ => rfl, fun h => ?_,
        fun l' hl' => ?_, fun h => ?_⟩
      · exact absurd h (by show ¬ p.sent + 1 < 4; omega)
      · cases hl'
      · exact absurd h (by show ¬ p.sent + 1 < 4; omega)
  | none =>
    obtain ⟨⟨x, hx, haddr⟩, hactive, -⟩ := hold.local_ hlt hlease
    refine ⟨.inl hactive, hc.active, hc.states, ?_, hc.offers, fun h => ?_, fun p' hp' => ?_⟩
    · intro conf hconf
      cases hconf
      exact ⟨x, hx, by rw [haddr]⟩
    · have h : c.state = .stopped := h
      rw [(hc.stopped h).1] at hp
      cases hp
    · cases hp'
      refine ⟨by show p.sent + 1 ≤ 4; omega, fun _ => rfl, fun h => ?_,
        fun l' hl' => ?_, fun h => ?_⟩
      · exact absurd h (by show ¬ p.sent + 1 < 4; omega)
      · cases hl'
      · exact absurd h (by show ¬ p.sent + 1 < 4; omega)

/-- A tick of a probe leaves a sound client. -/
theorem Ticked.sound {p : Probe} (hc : c.Sound) (hp : c.probe = some p) (h : Ticked p now c c') :
    c'.Sound := by
  cases h with
  | again delay few => exact hc.advance hp (by omega) _
  | last third => exact hc.advance hp (by omega) _
  | use fourth => exact hc.adopt hp (by omega) _
  | done fifth =>
    refine ⟨hc.exclusive, hc.active, hc.states, hc.linkLocal, hc.offers,
      fun h => ⟨rfl, (hc.stopped h).2⟩, ?_⟩
    intro p' hp'
    cases hp'

/-- A tick of a probe does not change the address of the hardware. -/
theorem Ticked.mac {p : Probe} (h : Ticked p now c c') : c'.mac = c.mac := by
  cases h with
  | use fourth =>
    unfold adopt
    split <;> rfl
  | _ => rfl

/-- The address changes with the fourth message only. It is then that the lease or the link-local
address of the probe is adopted. -/
theorem Ticked.address {p : Probe} (hc : c.Sound) (hp : c.probe = some p) (h : Ticked p now c c') :
    c'.address = c.address ∨ p.sent = 3 ∧ c'.address = some p.address := by
  cases h with
  | use fourth =>
    refine .inr ⟨by omega, ?_⟩
    have hold := hc.probe p hp
    unfold Client.adopt
    cases hlease : p.lease with
    | some l => exact congrArg some (hold.leased l hlease).2.1
    | none =>
      have hactive := (hold.local_ (by omega) hlease).2.1
      unfold Client.address Client.configuration
      dsimp only
      rw [hactive]
      rfl
  | _ => exact .inl rfl

/-- What is held after a tick of a probe was held before: the tick moves the lease of the probe to
the one in use, and brings no other. -/
theorem Ticked.held {p : Probe} (hp : c.probe = some p) (h : Ticked p now c c') {l : Lease}
    (hl : c'.Held l) : c.Held l := by
  cases h with
  | again delay few =>
    rcases hl with hl | ⟨p', hp', hl⟩
    · exact .inl hl
    · cases hp'
      exact .inr ⟨p, hp, hl⟩
  | last third =>
    rcases hl with hl | ⟨p', hp', hl⟩
    · exact .inl hl
    · cases hp'
      exact .inr ⟨p, hp, hl⟩
  | use fourth =>
    unfold adopt at hl
    cases hlease : p.lease with
    | some l' =>
      rw [hlease] at hl
      rcases hl with hl | ⟨p', hp', hl⟩
      · cases hl
        exact .inr ⟨p, hp, hlease⟩
      · cases hp'
        cases hl
    | none =>
      rw [hlease] at hl
      rcases hl with hl | ⟨p', hp', hl⟩
      · exact .inl hl
      · cases hp'
        cases hl
  | done fifth =>
    rcases hl with hl | ⟨p', hp', hl⟩
    · exact .inl hl
    · cases hp'

/-! ## Polling -/

/-- The ARP messages of a poll. -/
inductive Probes (now : Nat) (c : Client) : List Output → Client → Prop
  | none : Probes now c [] c
  | tick {c' : Client} {p : Probe} (hp : c.probe = some p) (due : p.next ≤ now)
      (ticked : Ticked p now c c') :
      Probes now c [askAll c.mac (if p.sent < 3 then unspecified else p.address) p.address] c'

/-- No lease that a client uses or is about to use has expired. -/
def Live (now : Nat) (c : Client) : Prop := ∀ l, c.Held l → now < l.expires

/-- No acknowledgement. -/
def nothing : Lease → Prop := fun _ => False

/-- What a poll does. -/
structure Polled (now : Nat) (c c' : Client) (out : List Output) (c₁ c₂ : Client)
    (arps : List Output) : Prop where
  before : Calm nothing c c₁
  live : Live now c₁
  probes : Probes now c₁ arps c₂
  after : Calm nothing c₂ c'
  out : arps ⊆ out

/-- What a poll does that fails. -/
structure Faltered (now : Nat) (c c' c₁ c₂ : Client) : Prop where
  before : Calm nothing c c₁
  probes : (∃ arps, Probes now c₁ arps c₂) ∨ ∃ p, c₁.probe = some p ∧ p.sent < 3 ∧ c₂ = { c₁ with
    probe := some { p with sent := p.sent + 1 } }
  after : Calm nothing c₂ c'

/-- After expiry no lease in use is past its time. If the lease has expired the client starts anew
and holds none; otherwise it has not. -/
theorem expire_post (hrun : w.client.state ≠ .stopped) : Act.Outcome (expire now) w
    (fun _ t => t.client.state ≠ .stopped ∧ ∀ l, t.client.active = some l → now < l.expires)
    fun _ _ => True := by
  refine outcome_look_bind.2
    (Act.Outcome.branch (fun _ => restart_idle.mono ?_ fun _ _ h => h) fun hlive => ?_)
  · rintro _ t ⟨hactive, -, hstate⟩
    refine ⟨?_, fun l hl => ?_⟩
    · rw [hstate]
      exact Phase.noConfusion
    · rw [hactive] at hl
      cases hl
  · refine Act.outcome_pure _ |>.2 ⟨hrun, fun l hl => Nat.lt_of_not_le fun hle => hlive ?_⟩
    rw [hl]
    exact decide_eq_true hle

/-- A new transaction changes the numbers of the transaction only. -/
theorem transaction_same {P : Client → Prop} (h : ∀ xid, P { w.client with
    xid, started := now, next := now, retry := 4000 }) :
    Act.Outcome (transaction now) w (fun _ t => P t.client) fun _ _ => True := by
  refine Act.Outcome.bind (Q := fun _ t => t.client = w.client)
    (outcome_sample (fun _ _ _ ht => ht) ?_) ?_
  · exact fun _ _ _ => trivial
  · intro xid t ht
    refine outcome_change.2 ?_
    show P { t.client with xid, started := now, next := now, retry := 4000 }
    rw [ht]
    exact h xid

/-- After asking for more time no lease in use is past its time. The lease stays as it was; only the
state and the exchange change. -/
theorem renew_post (hrun : w.client.state ≠ .stopped)
    (hlive : ∀ l, w.client.active = some l → now < l.expires) : Act.Outcome (renew now) w
    (fun _ t => t.client.state ≠ .stopped ∧ ∀ l, t.client.active = some l → now < l.expires)
    fun _ _ => True := by
  unfold renew
  refine outcome_look_bind.2 ?_
  cases hactive : w.client.active with
  | none =>
    refine (Act.outcome_pure _).2 ⟨hrun, fun l hl => ?_⟩
    rw [hactive] at hl
    cases hl
  | some l =>
    refine Act.Outcome.branch (fun _ => outcome_change_bind.2 ?_) fun _ => Act.Outcome.branch
      (fun _ => outcome_change_bind.2 ?_) fun _ => (Act.outcome_pure _).2 ⟨hrun, hlive⟩
    · exact transaction_same (P := fun c => c.state ≠ .stopped ∧ ∀ l, c.active = some l →
        now < l.expires)
        fun xid => ⟨Phase.noConfusion, hlive⟩
    · exact transaction_same (P := fun c => c.state ≠ .stopped ∧ ∀ l, c.active = some l →
        now < l.expires)
        fun xid => ⟨Phase.noConfusion, hlive⟩

/-- After leases were given up none in use is past its time. If the lease of the probe has run out
too, the client starts anew and holds none. -/
theorem abandon_post (hrun : w.client.state ≠ .stopped)
    (hlive : ∀ l, w.client.active = some l → now < l.expires) : Act.Outcome (abandon now) w
    (fun _ t => t.client.state ≠ .stopped ∧ Live now t.client) fun _ _ => True := by
  refine outcome_look_bind.2
    (Act.Outcome.branch (fun _ => restart_idle.mono ?_ fun _ _ h => h) fun hprobe => ?_)
  · rintro _ t ⟨hactive, hnone, hstate⟩
    refine ⟨?_, ?_⟩
    · rw [hstate]
      exact Phase.noConfusion
    · rintro l (hl | ⟨p, hp, -⟩)
      · rw [hactive] at hl
        cases hl
      · rw [hnone] at hp
        cases hp
  · refine (Act.outcome_pure _).2 ⟨hrun, ?_⟩
    rintro l (hl | ⟨p, hp, hl⟩)
    · exact hlive l hl
    · refine Nat.lt_of_not_le fun hle => hprobe ?_
      rw [hp]
      show (p.lease.any fun l => decide (now ≥ l.expires)) = true
      rw [hl]
      exact decide_eq_true hle

/-- Probing leaves a sound client. -/
theorem Probes.sound {arps : List Output} (hc : c.Sound) (h : Probes now c arps c') : c'.Sound := by
  cases h with
  | none => exact hc
  | tick hp due ticked => exact ticked.sound hc hp

/-- What is held after probing was held before. -/
theorem Probes.held {arps : List Output} (h : Probes now c arps c') {l : Lease} (hl : c'.Held l) :
    c.Held l := by
  cases h with
  | none => exact hl
  | tick hp due ticked => exact ticked.held hp hl

/-- A calm step without an acknowledgement brings no lease into use, and so none that is past its
time. -/
theorem Live.calm (h : Live now c) (hcalm : Calm nothing c c') : Live now c' := fun l hl =>
  h l ((hcalm.held l hl).resolve_right id)

/-- A poll that falters in its first part has done no more than that. -/
theorem Faltered.early (h : Calm nothing c c') : Faltered now c c' c' c' :=
  ⟨h, .inl ⟨[], .none⟩, .refl h.sound⟩

/-- A part of a poll before its ARP messages. -/
theorem poll_part {m : Call α} {P : Client → Prop} (hbefore : Calm nothing c w.client)
    (hm : Gentle nothing m w) (hpost : Act.Outcome m w (fun _ t => P t.client) fun _ _ => True) :
    Act.Outcome m w (fun _ t => Calm nothing c t.client ∧ P t.client)
      fun e t => e ≠ .panic ∧ ∃ c₁ c₂, Faltered now c t.client c₁ c₂ := by
  refine (Act.Outcome.and hm hpost).mono ?_ ?_
  · exact fun _ _ h => ⟨hbefore.trans h.1, h.2⟩
  · exact fun _ _ h => ⟨h.1.1, _, _, .early (hbefore.trans h.1.2)⟩

/-- A poll asks for the address that is probed for, and is calm before and after it. The parts of
`poll` follow one another as in the source (`poll_part`), and what each of them ensures is the
premise of the next. -/
theorem poll_spec (hc : w.client.Sound) : Act.Outcome (poll now) w
    (fun out t => ∃ c₁ c₂ arps, Polled now w.client t.client out c₁ c₂ arps)
    fun e t => e ≠ .panic ∧ ∃ c₁ c₂, Faltered now w.client t.client c₁ c₂ := by
  unfold poll
  refine outcome_look_bind.2 (Act.Outcome.branch (fun hstopped => ?_) fun hrun => ?_)
  · refine (Act.outcome_pure _).2 ⟨_, _, [], .refl hc, ?_, .none, .refl hc, List.nil_subset _⟩
    rintro l (hl | ⟨p, hp, -⟩)
    · rw [(hc.stopped hstopped).2.1] at hl
      cases hl
    · rw [(hc.stopped hstopped).1] at hp
      cases hp
  · refine Act.Outcome.bind (poll_part (P := fun c => c.state ≠ .stopped ∧
      ∀ l, c.active = some l → now < l.expires) (.refl hc) (gentle_expire hc) (expire_post hrun)) ?_
    rintro _ t ⟨ht, hrun, hactive⟩
    refine Act.Outcome.bind (poll_part (P := fun c => c.state ≠ .stopped ∧
      ∀ l, c.active = some l → now < l.expires) ht (gentle_renew ht.sound)
        (renew_post hrun hactive)) ?_
    rintro _ t ⟨ht, hrun, hactive⟩
    refine Act.Outcome.bind (poll_part (P := fun c => c.state ≠ .stopped ∧ Live now c) ht
      (gentle_abandon ht.sound) (abandon_post hrun hactive)) ?_
    rintro _ t ⟨ht, hrun, hlive⟩
    refine Act.Outcome.bind (poll_part (P := Live now) ht (gentle_fallback ht.sound hrun)
      ((gentle_fallback ht.sound hrun).mono (fun _ _ h => hlive.calm h) fun _ _ _ => trivial)) ?_
    rintro _ t ⟨ht, hlive⟩
    refine Act.Outcome.bind (Q := fun arps u => Probes now t.client arps u.client)
      ((tick_spec ht.sound).mono ?_ ?_) ?_
    · rintro arps u (⟨rfl, hu⟩ | ⟨p, hp, hdue, rfl, hticked⟩)
      · rw [hu]
        exact .none
      · exact .tick hp hdue hticked
    · rintro e u ⟨hfine, p, hp, hfew, hu⟩
      refine ⟨hfine, t.client, u.client, ht, .inr ⟨p, hp, hfew, hu⟩, .refl ?_⟩
      rw [hu]
      exact ht.sound.advance hp hfew p.next
    · intro arps u hprobes
      have hconverse : Gentle nothing (converse now) u := gentle_converse (hprobes.sound ht.sound)
      refine Act.Outcome.bind (hconverse.mono (fun _ _ h => h) ?_) ?_
      · exact fun _ _ h => ⟨h.1, t.client, u.client, ht, .inl ⟨arps, hprobes⟩, h.2⟩
      · intro messages v hafter
        exact (Act.outcome_pure _).2
          ⟨t.client, u.client, arps, ht, hlive, hprobes, hafter, List.subset_append_left _ _⟩

/-! ## Runs -/

/-- What a call of the client does: it is calm, or it is a poll. -/
inductive Called (c : Client) (e : Event) : Client → Except Fault (List Output) → Prop
  | calm {c' : Client} {r : Except Fault (List Output)} (other : e.op ≠ .poll)
      (h : Calm (fun l => ∃ packet m, e.op = .receive packet ∧
        Acknowledges c packet e.now l m) c c') :
      Called c e c' r
  | polled {c' c₁ c₂ : Client} {out arps : List Output} (poll : e.op = .poll)
      (h : Polled e.now c c' out c₁ c₂ arps) : Called c e c' (.ok out)
  | faltered {c' c₁ c₂ : Client} {fault : Fault} (poll : e.op = .poll)
      (h : Faltered e.now c c' c₁ c₂) :
      Called c e c' (.error fault)

/-- What every call does: it does not panic, and is one of the kinds that are listed. A poll is
described by `poll_spec`; every other operation is gentle, so that a calm change is all that it
makes. -/
theorem after_spec (hc : c.Sound) (e : Event) :
    (c.after e).2 ≠ .error .panic ∧ Called c e (c.after e).1 (c.after e).2 := by
  have hgentle : e.op ≠ .poll → Gentle (fun l => ∃ packet m, e.op = .receive packet ∧
      Acknowledges c packet e.now l m) (perform e.now e.op) ⟨c, e.draw, 0⟩ := by
    intro hother
    cases hop : e.op with
    | restore lease => exact (gentle_restore hc).map _
    | receive packet => exact (gentle_receive hc fun l m hl => ⟨packet, m, rfl, hl⟩).map _
    | poll => exact absurd hop hother
    | stop => exact gentle_stop hc
    | setLink up => exact (gentle_setLink hc).map _
    | receiveArp frame => exact gentle_receiveArp hc
  cases hrun : perform e.now e.op ⟨c, e.draw, 0⟩ with
  | mk r t =>
    have hafter : c.after e = (t.client, r) := by
      unfold Client.after
      rw [hrun]
    rw [hafter]
    by_cases hpoll : e.op = .poll
    · have hspec := @poll_spec ⟨c, e.draw, 0⟩ e.now hc
      rw [hpoll] at hrun
      have hrun : poll e.now ⟨c, e.draw, 0⟩ = (r, t) := hrun
      cases r with
      | ok out =>
        obtain ⟨c₁, c₂, arps, h⟩ := (Act.outcome_of_ok hrun).1 hspec
        exact ⟨(fun h => by cases h), .polled hpoll h⟩
      | error fault =>
        obtain ⟨hfine, c₁, c₂, h⟩ := (Act.outcome_of_error hrun).1 hspec
        exact ⟨fun h => hfine (Except.error.inj h), .faltered hpoll h⟩
    · have hspec := hgentle hpoll
      cases r with
      | ok out => exact ⟨(fun h => by cases h), .calm hpoll ((Act.outcome_of_ok hrun).1 hspec)⟩
      | error fault =>
        obtain ⟨hfine, h⟩ := (Act.outcome_of_error hrun).1 hspec
        exact ⟨fun h => hfine (Except.error.inj h), .calm hpoll h⟩

/-- Every call leaves a sound client. -/
theorem Called.sound {e : Event} {r : Except Fault (List Output)} (h : Called c e c' r) :
    c'.Sound := by
  cases h with
  | calm other h => exact h.sound
  | polled poll h => exact h.after.sound
  | faltered poll h => exact h.after.sound

variable {mac : Mac} {start xid delay t₀ t : Nat} {es : List (Event × Except Fault (List Output))}

/-- A new client is sound. -/
theorem Sound.new (mac : Mac) (start xid delay : Nat) : Sound (new mac start xid delay) := by
  refine ⟨.inl rfl, ?_, ?_, ?_, fun _ h => absurd h List.not_mem_nil,
    fun h => Phase.noConfusion h, ?_⟩
  · intro l hl
    cases hl
  · rintro (h | h) <;> cases h
  · intro conf hconf
    cases hconf
  · intro p hp
    cases hp

/-- In every run the client is sound. -/
theorem Run.sound (run : machine.Run (new mac start xid delay) t₀ es c t) : c.Sound :=
  run.invariant (I := fun c _ => Sound c) (.new mac start xid delay) fun _ _ e hc _ _ =>
  (after_spec hc e).2.sound

/-- A lease that was acknowledged to a client while it waited for it. -/
def Granted (mac : Mac) (start xid delay t₀ : Nat) (es : List (Event × Except Fault (List Output)))
    (l : Lease) : Prop :=
  ∃ before e r after c t packet m, es = before ++ (e, r) :: after ∧
    machine.Run (new mac start xid delay) t₀ before c t ∧ e.op = .receive packet ∧
    Acknowledges c packet e.now l m

/-- A lease that was granted stays granted as the run goes on. -/
theorem Granted.snoc {l : Lease} (h : Granted mac start xid delay t₀ es l)
    (e : Event × Except Fault (List Output)) : Granted mac start xid delay t₀ (es ++ [e]) l := by
  obtain ⟨before, e', r, after, c, t, packet, m, rfl, hrest⟩ := h
  refine ⟨before, e', r, after ++ [e], c, t, packet, m, ?_, hrest⟩
  rw [List.append_assoc]
  rfl

/-- The leases that a call adds to those of the client. Only receiving a packet adds one, and that
packet acknowledges it. -/
theorem Called.held {e : Event} {r : Except Fault (List Output)} (h : Called c e c' r) {l : Lease}
    (hl : c'.Held l) :
    c.Held l ∨ ∃ packet m, e.op = .receive packet ∧ Acknowledges c packet e.now l m := by
  cases h with
  | calm other h => exact h.held l hl
  | polled poll h =>
    have h2 := h.probes.held ((h.after.held l hl).resolve_right id)
    exact .inl ((h.before.held l h2).resolve_right id)
  | @faltered c₁ c₂ _ poll h =>
    have h2 : c₁.Held l := by
      have hl := (h.after.held l hl).resolve_right id
      rcases h.probes with ⟨arps, hprobes⟩ | ⟨p, hp, hfew, rfl⟩
      · exact hprobes.held hl
      · rcases hl with hl | ⟨p', hp', hl⟩
        · exact .inl hl
        · cases hp'
          exact .inr ⟨p, hp, hl⟩
    exact .inl ((h.before.held l h2).resolve_right id)

/-- In every run, each lease that the client uses or is about to use was acknowledged to it: by a
reply with its Ethernet address and the identifier of its exchange, when it waited for one, and from
the server that it had asked unless it asked them all. -/
theorem granted (run : machine.Run (new mac start xid delay) t₀ es c t) :
    ∀ l, c.Held l → Granted mac start xid delay t₀ es l := by
  refine run.history (I := fun es c _ => ∀ l, c.Held l → Granted mac start xid delay t₀ es l) ?_ ?_
  · rintro l (hl | ⟨p, hp, -⟩)
    · cases hl
    · cases hp
  · intro es c t e run hes _ _ l hl
    rcases (after_spec (Run.sound run) e).2.held hl with hl | ⟨packet, m, hop, hack⟩
    · exact (hes l hl).snoc _
    · exact ⟨es, e, _, [], c, t, packet, m, rfl, run, hop, hack⟩

/-- In every run no call panics; each lease that the client uses or is about to use is one that the
host takes, and was acknowledged to it while it waited for it; and after a poll the lease in use has
not expired. -/
theorem lawful (run : machine.Run (new mac start xid delay) t₀ es c t) :
    (∀ e ∈ es, e.2 ≠ .error .panic) ∧
      (∀ l, c.Held l → l.Sound ∧ Granted mac start xid delay t₀ es l) ∧
      ∀ e out, e.op = .poll → (c.after e).2 = .ok out →
        ∀ l, (c.after e).1.active = some l → e.now < l.expires := by
  have hc := Run.sound run
  refine ⟨?_, fun l hl => ⟨?_, granted run l hl⟩, fun e out hop hok l hl => ?_⟩
  · refine run.history (I := fun es _ _ => ∀ e ∈ es, e.2 ≠ .error .panic)
      (fun _ he => absurd he List.not_mem_nil) ?_
    intro es c t e run hes _ _ e' he'
    rcases List.mem_append.1 he' with he' | he'
    · exact hes e' he'
    · rw [List.mem_singleton.1 he']
      exact (after_spec (Run.sound run) e).1
  · rcases hl with hl | ⟨p, hp, hl⟩
    · exact (hc.active l hl).1
    · exact ((hc.probe p hp).leased l hl).1
  · have hcalled := (after_spec hc e).2
    rw [hok] at hcalled
    cases hcalled with
    | calm other h => exact absurd hop other
    | @polled c₁ c₂ _ arps poll h =>
      exact h.live l (h.probes.held ((h.after.held l (.inl hl)).resolve_right id))

end Client

end SnacMachine.Ipv4
