import SnacMachine.Router.Group

/-!
# What becomes of the router's addresses in one call

The addresses of the router and whether its links are up, before and after a call. Most calls leave
both alone (`steady`). A tick probes for the addresses that are due and takes those whose probe went
unanswered (`ticks`); a message about an address that is being checked gives the address up
(`Abandoned`, `receive_conflict`); and the other calls that touch the table add addresses or note
that a probe was not sent. `call_ready`, `call_probing` and `call_failed` collect what this says of
every call.
-/

namespace SnacMachine.Router

open Ip Nat64 Act

/-- The probe for an address. Reference: `router/owned.rs:68`. -/
def dadPacket (a : Ipv6Addr) : Except WireError Bytes :=
  icmpPacket .unspecified a.solicitedNode 255 ([135, 0, 0, 0, 0, 0, 0, 0] ++ a.1)

/-- The probe for an address can always be built. -/
theorem dadPacket_ok (a : Ipv6Addr) : ∃ packet, dadPacket a = .ok packet := by
  have hlen : ([135, 0, 0, 0, 0, 0, 0, 0] ++ a.1 : Bytes).length = 24 := by
    rw [List.length_append, a.2]
    rfl
  refine ⟨_, (icmpPacket_eq (by omega)).trans (if_neg ?_)⟩
  rw [length_filled (by omega), hlen]
  omega

/-- An address whose probe is out. -/
structure OwnedAddress.Probing (x : OwnedAddress) : Prop where
  state : x.state = .tentative
  sent : x.probeSent = true
  attempts : x.attempts ≠ 0

/-- The probe for an address is among the packets of a call. -/
def Emits (out : List Tx) (k : Link × Ipv6Addr) : Prop :=
  ∃ packet, dadPacket k.2 = .ok packet ∧ (⟨k.1, packet⟩ : Tx) ∈ out

/-- What a call emits is emitted by any call that returns more packets. -/
theorem Emits.mono {out out' : List Tx} {k : Link × Ipv6Addr} (h : Emits out k)
    (hsub : ∀ tx ∈ out, tx ∈ out') : Emits out' k := by
  obtain ⟨packet, hpacket, hmem⟩ := h
  exact ⟨packet, hpacket, hsub _ hmem⟩

/-! ## Calls that leave the addresses alone -/

/-- The addresses stay, and so does what is up. -/
def steady : Frame World where
  rel w w' := w'.router.owned = w.router.owned ∧
    ∀ l, (w'.router.links.get l).up = (w.router.links.get l).up
  refl _ := ⟨rfl, fun _ => rfl⟩
  trans h h' := ⟨h'.1.trans h.1, fun l => (h'.2 l).trans (h.2 l)⟩

/-- The fields that `steady` reads. -/
def steadyFields : List Field := [.owned, .link .ail .up, .link .stub .up]

/-- Whether a router is steady is read from its addresses and from what is up. -/
theorem steady_reads : Reads steady steadyFields := by
  intro w w' h
  refine ⟨h .owned (by decide), fun l => ?_⟩
  cases l with
  | ail => exact h (.link .ail .up) (by decide)
  | stub => exact h (.link .stub .up) (by decide)

section Steady

variable {α : Type} {S : List Field} {m : Io α} {w : World}

/-- A computation that changes none of these fields is steady. -/
theorem keeps_steady (h : Changes (only S) m) (hS : ∀ a ∈ steadyFields, a ∉ S) : Changes steady m :=
  h.keeps steady_reads hS

/-- An update of a router is steady if it leaves addresses and links alone. -/
theorem update_steady {f : Router → Router}
    (h : ∀ r, (f r).owned = r.owned ∧ (f r).links = r.links) : Changes steady (update f) := by
  intro w
  refine ⟨(h w.router).1, fun l => ?_⟩
  show ((f w.router).links.get l).up = (w.router.links.get l).up
  rw [(h w.router).2]

/-- An update of a link is steady if it leaves alone whether the link is up. -/
theorem updateLink_steady {l : Link} {f : LinkState → LinkState} (h : ∀ s, (f s).up = s.up) :
    Changes steady (updateLink l f) := by
  intro w
  refine ⟨rfl, fun l' => ?_⟩
  show ((w.router.links.set l (f (w.router.links.get l))).get l').up = (w.router.links.get l').up
  rcases Decidable.em (l' = l) with rfl | hl
  · rw [Both.get_set_self, h]
  · rw [Both.get_set_ne _ _ hl]

/-- Looking is steady. -/
theorem look_steady : Changes steady look := fun _ => ⟨rfl, fun _ => rfl⟩

/-- Announcing a change on a link is steady. -/
theorem changed_steady (l : Link) (now : Nat) : Changes steady (changed l now) :=
  keeps_steady (changed_only l now) (by cases l <;> decide)

end Steady

/-! ## Links that go up and down -/

section Links

variable {l : Link} {up : Bool} {now : Nat} {w : World}

/-- Whether an address of a link was given up. -/
def Exhausted (r : Router) (l : Link) : Prop :=
  ∃ a x, r.owned.get (l, a) = some x ∧ x.state = .failed

/-- The source looks for an address of the link that was given up. -/
theorem any_failed_iff (r : Router) (l : Link) :
    r.owned.entries.any (fun x => x.1.1 == l && x.2.state == .failed) = true ↔ r.Exhausted l := by
  simp only [List.any_eq_true, Bool.and_eq_true, beq_iff_eq, Exhausted]
  constructor
  · rintro ⟨⟨⟨l', a⟩, x⟩, hm, rfl, hx⟩
    exact ⟨a, x, OrdMap.mem_iff_get.1 hm, hx⟩
  · rintro ⟨a, x, hget, hx⟩
    exact ⟨((l, a), x), OrdMap.mem_iff_get.2 hget, rfl, hx⟩

/-- A link does not come up once an address of it was given up. -/
theorem setLink_exhausted (h : w.router.Exhausted l) : setLink l true now w = (.ok (), w) := by
  simp only [setLink, look_bind_run, (any_failed_iff w.router l).2 h, Bool.and_self, if_true]
  rfl

/-- A link is as it was told to be, and nothing happened to the addresses. -/
structure Told (l : Link) (up : Bool) (w w' : World) : Prop where
  owned : w'.router.owned = w.router.owned
  told : (w'.router.links.get l).up = up
  rest : ∀ l', l' ≠ l → (w'.router.links.get l').up = (w.router.links.get l').up

/-- What is steady keeps a link as it was told to be. -/
theorem Told.of_steady {w₁ w₂ : World} (h : Told l up w w₁) (h' : steady.rel w₁ w₂) :
    Told l up w w₂ :=
  ⟨h'.1.trans h.owned, (h'.2 l).trans h.told, fun l' hl => (h'.2 l').trans (h.rest l' hl)⟩

/-- After the update of a link, a computation goes on with the updated router. -/
theorem updateLink_bind_run {α : Type} (f : LinkState → LinkState) (k : Unit → Io α) (w : World) :
    (updateLink l f >>= k) w = k () (updateLink l f w).2 := rfl

/-- Otherwise the link is as it is told. The first update does that, and the rest of the function
neither touches the addresses nor what is up. -/
theorem setLink_told (h : up = true → ¬ w.router.Exhausted l) :
    Told l up w (setLink l up now w).2 := by
  unfold setLink
  rw [look_bind_run]
  split
  · next hfail =>
    rw [Bool.and_eq_true, any_failed_iff] at hfail
    exact absurd hfail.2 (h hfail.1)
  split
  · next hup => exact ⟨rfl, hup, fun _ _ => rfl⟩
  · -- after the change of the link itself, the rest is steady
    rw [updateLink_bind_run]
    refine Told.of_steady (?_ : Told l up w (updateLink l (fun s => { s with up }) w).2) ?_
    · refine ⟨rfl, ?_, fun l' hl => ?_⟩
      · exact congrArg LinkState.up (Both.get_set_self _ _ _)
      · exact congrArg LinkState.up (Both.get_set_ne _ _ hl)
    refine (?_ : Changes steady _) _
    refine .bind (update_steady fun r => ⟨rfl, rfl⟩) fun _ =>
      .when (update_steady fun r => ⟨rfl, rfl⟩)
      fun _ => .when (update_steady fun r => ⟨rfl, rfl⟩) fun _ => ?_
    refine .branch ?_ fun _ hrest => ?_
    · refine .branch ?_ fun _ hrest => .bind (update_steady fun r => ⟨rfl, rfl⟩) fun _ =>
        .bind (changed_steady .ail now) fun _ => hrest
      refine .ite (.when (update_steady fun r => ⟨rfl, rfl⟩) fun _ => .bind
        (update_steady fun r => ⟨rfl, rfl⟩) fun _ =>
        .bind (changed_steady .stub now) fun _ => ?_) (.pure _)
      refine .ite (.bind (update_steady fun r => ⟨rfl, rfl⟩) fun _ => ?_) (.pure _)
      exact keeps_steady (PdClient.refresh_only now 6) (by decide)
    · exact .bind (update_steady fun r => ⟨rfl, rfl⟩) fun _ =>
        .bind (updateLink_steady fun s => rfl)
        fun _ => .bind (keeps_steady (S := []) (sample_only _) nofun) fun _ =>
        .bind (updateLink_steady fun s => rfl) fun _ => hrest

end Links

/-! ## Conflicts -/

/-- The address that is tried instead of another. Reference: `router/owned.rs:150`. -/
def anotherAddress (own : OwnedAddress) (v : Nat) : Ipv6Addr :=
  .ofValue ((match own.prefix_ with
    | some p => p.address.value
    | none => 0xfe80 <<< 112) ||| max (ofBe (toBe 8 v) &&& 0xfdffffffffffffff) 1)

/-- The identifier that a conflict draws from the random source. -/
def drawn (draw : Random) : Except IoError Nat := draw.sample 0 (256 ^ 8 - 1)

/-- What becomes of an address on a link that is being checked when another station has it. -/
inductive Abandoned (draw : Random) (k : Link × Ipv6Addr) (x : OwnedAddress) (now : Nat)
    (r : Router) : Except IoError (List Tx) → Router → Prop
  | exhausted {err : IoError} {r' : Router} (h : 3 ≤ x.attempts)
      (owned : r'.owned = r.owned.insert k { x with state := .failed, deadline := none })
      (down : (r'.links.get k.1).up = false)
      (rest : ∀ l, l ≠ k.1 → (r'.links.get l).up = (r.links.get l).up) :
      Abandoned draw k x now r (.error err) r'
  | undrawn {err : IoError} {r' : Router} (h : x.attempts < 3) (hdraw : drawn draw = .error err)
      (owned : r'.owned = r.owned.remove k)
      (links : ∀ l, (r'.links.get l).up = (r.links.get l).up) :
      Abandoned draw k x now r (.error err) r'
  | retried {v : Nat} {packet : Bytes} {p : Option Prefix} {r' : Router} (h : x.attempts < 3)
      (hdraw : drawn draw = .ok v) (hpacket : dadPacket (anotherAddress x v) = .ok packet)
      (owned : ∀ k', r'.owned.get k' = if k' = (k.1, anotherAddress x v)
        then some ⟨true, p, .tentative, some (now + 1000), x.attempts + 1⟩
        else (r.owned.remove k).get k')
      (links : ∀ l, (r'.links.get l).up = (r.links.get l).up) :
      Abandoned draw k x now r (.ok [⟨k.1, packet⟩]) r'

section Conflict

variable {l : Link} {e : Envelope} {nd : Nd} {now : Nat} {w : World}

/-- The table after a probe has gone out for an address. The address is entered as one under test,
with a deadline in a second, and nothing else changes. -/
theorem beginDad_run (l : Link) (a : Ipv6Addr) (now : Nat) (w : World) :
    ∃ packet w', dadPacket a = .ok packet ∧ beginDad l a now w = (.ok ⟨l, packet⟩, w') ∧
      (∀ l', (w'.router.links.get l').up = (w.router.links.get l').up) ∧
      w'.router.owned = w.router.owned.insert (l, a) ⟨true,
        if a.linkLocal then none else Prefix.new a 64, .tentative, some (now + 1000), 1⟩ ∧
      w'.router.identity = w.router.identity := by
  obtain ⟨packet, hpacket⟩ := dadPacket_ok a
  have hrun := hpacket
  unfold dadPacket at hrun
  unfold beginDad
  rw [hrun]
  cases a.linkLocal with
  | true =>
    refine ⟨packet, _, hpacket, rfl, fun l' => ?_, rfl, rfl⟩
    exact ((updateLink_steady fun s => rfl : Changes steady (updateLink l fun s =>
      { s with rsCount := 0, rsNext := satAdd now 1000, discoveryEnd := u64Max })) w).2 l'
  | false => exact ⟨packet, _, hpacket, rfl, fun l' => rfl, rfl, rfl⟩

/-- Octets are drawn when the source of random numbers returns one. -/
theorem fill_ok {n v : Nat} {w : World} (h : w.draw.sample w.used (256 ^ n - 1) = .ok v) :
    fill n w = (.ok (toBe n v), { w with used := w.used + 1 }) :=
  bind_ok (congrArg (fun x => (x, { w with used := w.used + 1 })) h)

/-- A failed draw counts as a draw, and fails with the same error. -/
theorem fill_error {n : Nat} {w : World} {err : IoError}
    (h : w.draw.sample w.used (256 ^ n - 1) = .error err) :
    fill n w = (.error err, { w with used := w.used + 1 }) :=
  bind_error (congrArg (fun x => (x, { w with used := w.used + 1 })) h)

/-- The third conflict takes the link down. The computation ends with an error, whatever taking the
link down returns. -/
theorem exhausted_run {α : Type} (now : Nat) (f : Router → Router) (text : String) (w : World) :
    ∃ err w', (do update f; setLink l false now; other text : Io α) w = (.error err, w') ∧
      Told l false { w with router := f w.router } w' := by
  have htold : Told l false { w with router := f w.router }
    (setLink l false now { w with router := f w.router }).2 := setLink_told nofun
  rw [update_bind_run]
  cases hrun : setLink l false now { w with router := f w.router } with
  | mk res w' =>
    rw [hrun] at htold
    cases res with
    | error err => exact ⟨err, w', bind_error hrun, htold⟩
    | ok => exact ⟨_, w', bind_ok hrun, htold⟩

/-- An earlier conflict tries another address. It is entered as after `beginDad_run`, with one
attempt more than the one that was given up. -/
theorem retried_run (own : OwnedAddress) (a : Ipv6Addr) (w : World) :
    ∃ packet w', dadPacket a = .ok packet ∧
      (do
        let tx ← beginDad l a now
        update fun r => { r with owned := r.owned.modify (l, a) fun x =>
          { x with attempts := own.attempts + 1 } }
        pure (some [tx]) : Io (Option (List Tx))) w = (.ok (some [⟨l, packet⟩]), w') ∧
      (∀ k, w'.router.owned.get k = if k = (l, a) then some ⟨true,
          if a.linkLocal then none else Prefix.new a 64, .tentative, some (now + 1000),
            own.attempts + 1⟩
        else w.router.owned.get k) ∧
      ∀ l', (w'.router.links.get l').up = (w.router.links.get l').up := by
  obtain ⟨packet, w', hpacket, hrun, hlinks, howned, -⟩ := beginDad_run l a now w
  refine ⟨packet, _, hpacket, (bind_ok hrun).trans rfl, fun k => ?_, hlinks⟩
  show (w'.router.owned.modify (l, a) _).get k = _
  rw [howned, OrdMap.get_modify, OrdMap.get_insert_eq]
  simp only [sameKey_iff]
  by_cases hk : k = (l, a)
  · simp [hk]
  · rw [if_neg hk, if_neg hk, if_neg fun h => hk h.symm]

/-- A message about an address that is being checked makes the router give it up: at the third
attempt the link goes down, and before that another address is drawn and checked, unless none can be
drawn. -/
theorem ownedNd_conflict (now : Nat) {x : OwnedAddress} (hused : w.used = 0)
    (hkind : nd.kind = 135 ∨ nd.kind = 136) (hx : w.router.owned.get (l, targetOf nd) = some x)
    (ht : x.state = .tentative) :
    ∃ res w', ownedNd l e nd now w = (res.map some, w') ∧
      Abandoned w.draw (l, targetOf nd) x now w.router res w'.router := by
  have hk : ¬ (nd.kind ≠ 135 ∧ nd.kind ≠ 136) := fun h => hkind.elim h.1 h.2
  unfold ownedNd
  rw [if_neg hk, look_bind_run, hx]
  simp only [if_pos ht]
  by_cases h3 : x.attempts ≥ 3
  · rw [if_pos h3]
    obtain ⟨err, w', hrun, htold⟩ := exhausted_run (α := Option (List Tx)) (l := l) now
      (fun r => { r with owned := r.owned.insert (l, targetOf nd) { x with
        state := .failed
        deadline := none } }) "DAD conflict after three identities" w
    exact ⟨.error err, w', hrun, .exhausted h3 htold.owned htold.told htold.rest⟩
  · rw [if_neg h3, update_bind_run]
    have h3 := Nat.lt_of_not_le h3
    cases hdraw : drawn w.draw with
    | error err =>
      have hsample : w.draw.sample w.used (256 ^ 8 - 1) = .error err := by rw [hused]; exact hdraw
      exact ⟨.error err, _, bind_error (fill_error hsample), .undrawn h3 hdraw rfl fun _ => rfl⟩
    | ok v =>
      have hsample : w.draw.sample w.used (256 ^ 8 - 1) = .ok v := by rw [hused]; exact hdraw
      rw [bind_ok (fill_ok (w := ⟨{ w.router with
        owned := w.router.owned.remove (l, targetOf nd) }, w.draw, w.used⟩) hsample)]
      split
      · rw [update_bind_run]
        obtain ⟨packet, w', hpacket, hrun, howned, hlinks⟩ := retried_run x (anotherAddress x v) _
        exact ⟨.ok [⟨l, packet⟩], w', hrun, .retried h3 hdraw hpacket howned hlinks⟩
      · obtain ⟨packet, w', hpacket, hrun, howned, hlinks⟩ := retried_run x (anotherAddress x v) _
        exact ⟨.ok [⟨l, packet⟩], w', hrun, .retried h3 hdraw hpacket howned hlinks⟩

/-- A message about any other address changes no address. Only an address under test is touched by a
solicitation or an advertisement for it, and the hypothesis excludes that it is the target. -/
theorem ownedNd_steady (h : (nd.kind = 135 ∨ nd.kind = 136) →
      ∀ x, w.router.owned.get (l, targetOf nd) = some x → x.state ≠ .tentative) :
    steady.rel w (ownedNd l e nd now w).2 := by
  unfold ownedNd
  split
  · exact steady.refl w
  · next hk =>
    have hkind : nd.kind = 135 ∨ nd.kind = 136 := by
      by_contra hne
      rw [not_or] at hne
      exact hk hne
    rw [look_bind_run]
    cases hx : w.router.owned.get (l, targetOf nd) with
    | none => exact steady.refl w
    | some x =>
      simp only [if_neg (h hkind x hx)]
      refine (?_ : Changes steady _) _
      refine .ite (.pure _) (.ite (.bind look_steady fun r => .pure _) (.ite ?_ ?_))
      · exact .bind (keeps_steady (degrade_only now) (by decide)) fun _ => .fail _
      · refine .bind (keeps_steady (S := [.neighbors, .suppliers, .routes])
          (update_only fun r a ha => ?_)
          (by decide)) fun _ => .bind look_steady fun r => .pure _
        refine .trans (reapFailedNeighbors_agree now r ha) ?_
        exact agree_of_restore rfl ha

end Conflict

/-! ## Packets -/

/-- A packet is a solicitation or an advertisement of an address that the router takes in: the link
is up, the packet is not the router's own, it is addressed to the router, and it is valid. -/
def Hears (r : Router) (l : Link) (packet : Bytes) (a : Ipv6Addr) : Prop :=
  r.lifecycle.ending = false ∧ (r.links.get l).up = true ∧
    ∃ e nd, envelope .rawIpv6 packet = .ok e ∧
      ¬ (e.source = r.identity.linkLocal l ∧ r.addressReady l e.source = true) ∧
      (e.destination.isMulticast = true ∨ r.owned.contains (l, e.destination) = true) ∧
      decodeNd e = .ok nd ∧ (nd.kind = 135 ∨ nd.kind = 136) ∧ targetOf nd = a

section Receive

variable {l : Link} {packet : Bytes} {a : Ipv6Addr} {e : Envelope} {nd : Nd} {now : Nat} {w : World}

/-- A discovery message is no DHCP reply. -/
theorem isDhcpReply_nd (r : Router) (hnd : decodeNd e = .ok nd) : r.isDhcpReply l e = false := by
  obtain ⟨t, ht, hp, -⟩ := decodeNd_eq_ok hnd
  simp [isDhcpReply, ht, hp]

/-- Solicitations and advertisements of neighbors are not answered as echo requests: their first
octet is not 128. -/
theorem echoReply_nd (r : Router) (hnd : decodeNd e = .ok nd)
    (hkind : nd.kind = 135 ∨ nd.kind = 136) :
    r.echoReply l e now = none := by
  obtain ⟨t, ht, -, hk, -⟩ := decodeNd_eq_ok hnd
  unfold echoReply
  rw [ht]
  split
  · simp only
    rw [if_neg]
    rintro ⟨-, -, -, h128, -⟩
    have hfirst : octet t.bytes 0 = 128 := by
      cases hb : t.bytes with
      | nil => simp [hb] at h128
      | cons x xs =>
        rw [hb] at h128
        exact (List.cons.inj h128).1
    rw [hfirst] at hk
    rcases hkind with h | h <;> rw [h] at hk <;> exact absurd hk (by decide)
  · rfl

/-- A message about an address that is being checked gives the address up. The message is followed
through the dispatch of the source, up to the branch that deals with conflicts. -/
theorem receive_conflict (now : Nat) (w : World) {x : OwnedAddress} (hused : w.used = 0)
    (hears : w.router.Hears l packet a) (hx : w.router.owned.get (l, a) = some x)
    (ht : x.state = .tentative) :
    ∃ res w', receive l packet now w = (res, w') ∧
      Abandoned w.draw (l, a) x now w.router res w'.router := by
  obtain ⟨hend, hup, e, nd, he, hforeign, hdest, hnd, hkind, rfl⟩ := hears
  have hdest :
      (!e.destination.isMulticast && !w.router.owned.contains (l, e.destination)) = false := by
    rcases hdest with h | h <;> simp [h]
  obtain ⟨res, w', hrun, habandoned⟩ := ownedNd_conflict (e := e) now hused hkind hx ht
  refine ⟨res, w', ?_, habandoned⟩
  unfold receive
  rw [look_bind_run, hend, hup]
  simp only [Bool.not_true, Bool.or_self, Bool.false_eq_true, if_false, he, if_neg hforeign,
    isDhcpReply_nd w.router hnd, echoReply_nd w.router hnd hkind, hdest, hnd]
  unfold receiveNd
  rw [look_bind_run]
  cases res with
  | error err => exact bind_error hrun
  | ok out => exact bind_ok hrun

/-- A discovery message is steady unless it is about an address that is being checked. What comes
after `ownedNd` writes no address. -/
theorem receiveNd_steady (h : (nd.kind = 135 ∨ nd.kind = 136) →
      ∀ x, w.router.owned.get (l, targetOf nd) = some x → x.state ≠ .tentative) :
    steady.rel w (receiveNd l e nd now w).2 := by
  unfold receiveNd
  rw [look_bind_run]
  refine bind_at (ownedNd_steady h) fun out w₁ _ => ?_
  cases out with
  | some out => exact steady.refl w₁
  | none =>
    refine (?_ : Changes steady _) _
    refine .branch (.branch ?_ fun _ hrest => .bind ?_ fun _ => hrest) fun _ hrest =>
      .bind ?_ fun _ => hrest
    · refine .bind (keeps_steady (observeNeighbor_only now l e nd) (by decide)) fun _ => ?_
      refine .bind (keeps_steady (reconcileExports_only now _) (by decide)) fun _ => ?_
      refine .bind look_steady fun r => .when (changed_steady .stub now) fun _ => ?_
      exact .bind (update_steady fun r => ⟨rfl, rfl⟩) fun _ => .pure _
    · refine receiveRa_changes steady_reads l e nd now (by cases l <;> decide) fun o _ => ?_
      exact keeps_steady (observeOption_only l now _ _ o) (by cases l <;> decide)
    · exact keeps_steady (receiveSolicitation_only l now nd) (by cases l <;> decide)

/-- Any other packet leaves the addresses alone. Each branch of the function is within a frame that
does not read them, except for a message about a neighbor, which is steady by the hypothesis. -/
theorem receive_steady (h : ∀ a x, w.router.Hears l packet a → w.router.owned.get (l, a) = some x →
    x.state ≠ .tentative) : steady.rel w (receive l packet now w).2 := by
  unfold receive
  rw [look_bind_run]
  split
  · exact steady.refl w
  · next hopen =>
    simp only [Bool.or_eq_true, Bool.not_eq_true', not_or, Bool.not_eq_true,
      Bool.not_eq_false] at hopen
    cases he : envelope .rawIpv6 packet with
    | error err => exact steady.refl w
    | ok e =>
      simp only
      split
      · exact steady.refl w
      · next hforeign =>
        split
        · exact keeps_steady (receiveDhcp_only l e now) (by decide) w
        · cases w.router.echoReply l e now with
          | some tx =>
            refine (?_ : Changes steady _) _
            exact .bind (update_steady fun r => ⟨rfl, rfl⟩) fun _ => .pure _
          | none =>
            simp only
            split
            · exact steady.refl w
            · next hdest =>
              cases hnd : decodeNd e with
              | error err => exact steady.refl w
              | ok nd =>
                refine receiveNd_steady fun hkind x hx => ?_
                refine h _ x ⟨hopen.1, hopen.2, e, nd, he, hforeign, ?_, hnd, hkind, rfl⟩ hx
                cases hm : e.destination.isMulticast with
                | true => exact .inl rfl
                | false => exact .inr (by simpa [hm] using hdest)

end Receive

/-- A call brings a solicitation or an advertisement of an address that the router takes in. -/
def Heard (r : Router) (c : Call) (k : Link × Ipv6Addr) : Prop :=
  match c with
  | .receive l packet => l = k.1 ∧ r.Hears l packet k.2
  | .receiveFrame l kind frame => l = k.1 ∧ ¬ (kind = .ethernet ∧ otherFamily frame = true) ∧
      r.foreign l kind frame = false ∧ ∃ e t, envelope kind frame = .ok e ∧
      hopOptions e = .ok none ∧ transport e = .ok t ∧ r.forRouter l e t = true ∧
      r.Hears l e.packet k.2
  | _ => False

section Heard

variable {r : Router} {draw : Random} {now : Nat} {k : Link × Ipv6Addr}
  {x : OwnedAddress} {c : Call}

/-- A message about an address that is being checked gives the address up, in a packet or in a
frame. -/
theorem call_conflict (i : Input) (hears : r.Heard i.call k) (hx : r.owned.get k = some x)
    (ht : x.state = .tentative) : Abandoned i.draw k x i.now r (run r i).1 (run r i).2 := by
  obtain ⟨c, now, draw⟩ := i
  cases c with
  | receive l packet =>
    obtain ⟨rfl, hears⟩ := hears
    obtain ⟨res, w', hrun, h⟩ := receive_conflict now ⟨r, draw, 0⟩ rfl hears hx ht
    simpa only [run, Call.act, hrun] using h
  | receiveFrame l kind frame =>
    obtain ⟨rfl, hfamily, hforeign, e, t, he, hhop, htransport, hfor, hears⟩ := hears
    obtain ⟨res, w', hrun, h⟩ := receive_conflict now ⟨r, draw, 0⟩ rfl hears hx ht
    have hframe : receiveFrame k.1 kind frame now ⟨r, draw, 0⟩ = (res, w') := by
      unfold receiveFrame
      simp only [look_bind_run, if_neg hfamily, he, hforeign, Bool.false_eq_true, if_false, hhop,
        htransport, hfor, if_true]
      exact hrun
    simpa only [run, Call.act, hframe] using h
  | _ => exact hears.elim

/-- Receiving a frame is steady unless an address that it is about is being checked. A frame for the
router is passed to `receive` as a packet, and all others are forwarded, answered with an error or
dropped. -/
theorem receiveFrame_steady {l : Link} {kind : FrameKind} {frame : Bytes}
    (h : ∀ k x, r.Heard (.receiveFrame l kind frame) k → r.owned.get k = some x →
      x.state ≠ .tentative) :
    steady.rel ⟨r, draw, 0⟩ (receiveFrame l kind frame now ⟨r, draw, 0⟩).2 := by
  unfold receiveFrame
  rw [look_bind_run]
  split
  · refine (?_ : Changes steady _) _
    exact .when (update_steady fun r => ⟨rfl, rfl⟩) fun _ => .pure _
  · next hfamily =>
    cases he : envelope kind frame with
    | error err => exact steady.refl _
    | ok e =>
      simp only
      split
      · exact steady.refl _
      · next hforeign =>
        cases hhop : hopOptions e with
        | error err => exact steady.refl _
        | ok pointer =>
          cases pointer with
          | some pointer =>
            refine (?_ : Changes steady _) _
            exact .ite (keeps_steady (icmpError_only now _ _ _ _ _) (by decide)) (.pure _)
          | none =>
            cases htransport : transport e with
            | error err => exact steady.refl _
            | ok t =>
              simp only
              split
              · next hfor =>
                refine receive_steady fun a x hears hx => h (l, a) x ?_ hx
                exact ⟨rfl, hfamily, Bool.eq_false_iff.2 hforeign, e, t, he, hhop,
                  htransport, hfor, hears⟩
              · refine (?_ : Changes steady _) _
                exact .ite (.pure _) (keeps_steady (forward_only now _ _) (by decide))

end Heard

/-! ## Addresses that wait for their probe -/

/-- The addresses stay, vanish, or have yet to be probed for; those that were given up stay. What is
up stays up. -/
def waits : Frame World where
  rel w w' := (∀ l, (w'.router.links.get l).up = (w.router.links.get l).up) ∧
    (∀ k y, w'.router.owned.get k = some y →
      w.router.owned.get k = some y ∨ (y.state = .tentative ∧ ¬ y.Probing)) ∧
    ∀ k x, w.router.owned.get k = some x → x.state = .failed → w'.router.owned.get k = some x
  refl _ := ⟨fun _ => rfl, fun _ _ h => .inl h, fun _ _ h _ => h⟩
  trans h h' := ⟨fun l => (h'.1 l).trans (h.1 l),
    fun k y hy => (h'.2.1 k y hy).elim (h.2.1 k y) .inr,
    fun k x hx hfailed => h'.2.2 k x (h.2.2 k x hx hfailed) hfailed⟩

/-- What is steady lets addresses wait. -/
theorem steady.waits {w w' : World} (h : steady.rel w w') : waits.rel w w' := by
  refine ⟨h.2, fun k y hy => .inl ?_, fun k x hx _ => ?_⟩
  · rwa [h.1] at hy
  · rwa [h.1]

section Waits

variable {now : Nat}

/-- A computation that changes none of these fields lets addresses wait. -/
theorem keeps_waits {α : Type} {S : List Field} {m : Io α} (h : Changes (only S) m)
    (hS : ∀ a ∈ steadyFields, a ∉ S) : Changes waits m :=
  (keeps_steady h hS).mono fun _ _ => steady.waits

/-- An update of a router lets addresses wait if it leaves addresses and links alone. -/
theorem update_waits {f : Router → Router}
    (h : ∀ r, (f r).owned = r.owned ∧ (f r).links = r.links) :
    Changes waits (update f) := (update_steady h).mono fun _ _ => steady.waits

/-- Looking lets addresses wait. -/
theorem look_waits : Changes waits look := keeps_waits (S := []) look_only nofun

/-- An update of a link lets addresses wait if it leaves alone whether the link is up. -/
theorem updateLink_waits {l : Link} {f : LinkState → LinkState} (h : ∀ s, (f s).up = s.up) :
    Changes waits (updateLink l f) := (updateLink_steady h).mono fun _ _ => steady.waits

/-- Dropping what has expired lets addresses wait: it drops some, and the others stay. -/
theorem expire_waits : Changes waits (update (expire now)) := by
  intro w
  refine ⟨fun _ => rfl, fun k y hy => .inl ?_, fun k x hx hfailed => ?_⟩
  · have hy : (w.router.owned.retain _).get k = some y := hy
    rw [OrdMap.get_retain_lawful] at hy
    exact (Option.filter_eq_some_iff.1 hy).1
  · show (w.router.owned.retain _).get k = some x
    rw [OrdMap.get_retain_lawful, hx]
    simp [hfailed]

/-- A probe that was not sent is sent again: the address under test is due after a second, and
nothing else changes. -/
theorem unsent_waits (tx : Tx) : Changes waits (update (unsent tx now)) := by
  intro w
  show waits.rel w ⟨unsent tx now w.router, w.draw, w.used⟩
  unfold unsent
  split
  · exact waits.refl w
  split
  · exact waits.refl w
  split
  · refine ⟨fun _ => rfl, fun k y hy => ?_, fun k x hx hfailed => ?_⟩
    · have hy : (w.router.owned.modify _ _).get k = some y := hy
      rw [OrdMap.get_modify] at hy
      split at hy
      · obtain ⟨x, hx, rfl⟩ := Option.map_eq_some_iff.1 hy
        split
        · next ht => exact .inr ⟨ht, fun h => nomatch h.sent⟩
        · exact .inl hx
      · exact .inl hy
    · show (w.router.owned.modify _ _).get k = some x
      rw [OrdMap.get_modify, hx]
      split
      · simp [hfailed]
      · rfl
  · exact waits.refl w

/-- Owning an address lets addresses wait: the new one has yet to be probed for. An address that is
owned already is left alone. -/
theorem ownAddress_waits (l : Link) (p : Prefix) (r : Router) (draw : Random) (used : Nat) :
    waits.rel ⟨r, draw, used⟩ ⟨r.ownAddress l now p, draw, used⟩ := by
  unfold ownAddress
  split
  · exact waits.refl _
  dsimp only
  split
  · exact waits.refl _
  · next hfresh =>
    refine ⟨fun _ => rfl, fun k y hy => ?_, fun k x hx hfailed => ?_⟩
    · have hy : (r.owned.insert _ _).get k = some y := hy
      rw [OrdMap.get_insert_eq] at hy
      split at hy
      · cases hy
        exact .inr ⟨rfl, fun h => nomatch h.sent⟩
      · exact .inl hy
    · show (r.owned.insert _ _).get k = some x
      rw [OrdMap.get_insert_eq, if_neg, hx]
      rintro rfl
      exact hfresh (by simp [OrdMap.contains, hx])

/-- Noting a prefix lets addresses wait. The prefix may become an address of the router, which has
yet to be probed for. -/
theorem notePrefix_waits (l : Link) (o : NdOption) :
    Changes waits (update fun r => notePrefix l now r o) := by
  intro w
  show waits.rel w ⟨notePrefix l now w.router o, w.draw, w.used⟩
  unfold notePrefix
  split
  · exact waits.refl w
  · next p _ =>
    refine waits.trans ?_ (ownAddress_waits l p.prefix_ _ _ _)
    split
    · exact updateLink_waits (l := l) (f := fun s => { s with lastValid := .fromSecs now p.valid })
        (fun s => rfl) w
    · exact waits.refl w

/-- Noting prefixes, one after the other, lets addresses wait. -/
theorem notePrefixes_waits (l : Link) (os : List NdOption) :
    Changes waits (update fun r => os.foldl (notePrefix l now) r) := by
  induction os with
  | nil => exact waits.refl
  | cons o os ih => exact fun w => waits.trans (notePrefix_waits l o w) (ih _)

/-- Noting an advertisement that was sent lets addresses wait. -/
theorem sentRa_waits (l : Link) (nd : Nd) : Changes waits (sentRa l nd now) := by
  refine .bind (keeps_waits (finalSent_only l) (by decide)) fun _ =>
    .bind (keeps_waits (servicesTransmitted_only l now nd) (by decide)) fun _ =>
    .bind (keeps_waits (sent_only l now) (by cases l <;> decide)) fun _ =>
    .bind look_waits fun r => .bind (updateLink_waits fun s => rfl) fun _ =>
    .bind (keeps_waits (noteExports_only l now nd) (by decide)) fun _ =>
    notePrefixes_waits l nd.options

/-- Reports of what was sent leave the addresses alone, but for a probe that was not. The other
packets change timers and states of links. -/
theorem transmitted_waits (tx : Tx) (success : Bool) :
    Changes waits (transmitted tx now success) := by
  refine .ite (unsent_waits tx) ?_
  split
  · exact .pure _
  split
  · exact .pure _
  · refine .when (updateLink_waits fun s => ?_) fun _ => .ite (sentRa_waits tx.link _) (.pure _)
    unfold solicited
    split
    · rfl
    · rfl

/-- A call reports that a probe for an address was not sent. -/
def Reported (c : Call) (k : Link × Ipv6Addr) : Prop :=
  ∃ tx e nd, c = .transmitted tx false ∧ tx.link = k.1 ∧ envelope .rawIpv6 tx.packet = .ok e ∧
    decodeNd e = .ok nd ∧ e.source.isUnspecified = true ∧ nd.kind = 135 ∧ targetOf nd = k.2

/-- No probe is out for an address after that. The address is marked to be probed for again. -/
theorem call_reported {r : Router} {draw : Random} {c : Call} {k : Link × Ipv6Addr}
    {y : OwnedAddress} (h : Reported c k) (hy : (run r ⟨c, now, draw⟩).2.owned.get k = some y) :
    ¬ y.Probing := by
  obtain ⟨tx, e, nd, rfl, hlink, he, hnd, hsource, hkind, htarget⟩ := h
  have hkey : (tx.link, targetOf nd) = k := Prod.ext hlink htarget
  have hy : (unsent tx now r).owned.get k = some y := hy
  simp only [unsent, he, hnd, if_pos (⟨hsource, hkind⟩ : _ ∧ _), hkey] at hy
  rw [OrdMap.get_modify, if_pos (sameKey_self k)] at hy
  obtain ⟨x, hx, rfl⟩ := Option.map_eq_some_iff.1 hy
  intro hprobing
  split at hprobing
  · exact nomatch hprobing.sent
  · next ht => exact ht hprobing.state

end Waits

/-! ## Ticks -/

/-- The probes that are due. -/
def dueProbes (r : Router) (now : Nat) : List Tx := r.owned.entries.filterMap (r.dadProbe now)

/-- The computation deals with the addresses that are due once, or not at all; its result holds
their probes. -/
def Probes (now : Nat) (m : Io (List Tx)) : Prop :=
  ∀ w, waits.rel w (m w).2 ∨ ∃ w₁, waits.rel w w₁ ∧ waits.rel (tickDad now w₁).2 (m w).2 ∧
    ∀ out, (m w).1 = .ok out → w₁.router.dueProbes now ⊆ out

section Ticks

variable {now : Nat}

/-- A computation that lets addresses wait does not deal with those that are due. -/
theorem Probes.of_waits {m : Io (List Tx)} (h : Changes waits m) : Probes now m :=
  fun w => .inl (h w)

/-- What lets addresses wait may come before a computation that probes. An error before it leaves
nothing but the waiting. -/
theorem Probes.before {α : Type} {m : Io α} {f : α → Io (List Tx)} (hm : Changes waits m)
    (hf : ∀ a, Probes now (f a)) : Probes now (m >>= f) := by
  intro w
  have hw := hm w
  cases hrun : m w with
  | mk res t =>
    rw [hrun] at hw
    cases res with
    | error err =>
      rw [bind_error hrun]
      exact .inl hw
    | ok a =>
      rw [bind_ok hrun]
      rcases hf a t with h | ⟨w₁, hbefore, hafter, hout⟩
      · exact .inl (waits.trans hw h)
      · exact .inr ⟨w₁, waits.trans hw hbefore, hafter, hout⟩

/-- What lets addresses wait may come after a computation that probes, if the result keeps the
probes. -/
theorem Probes.after {m : Io (List Tx)} {f : List Tx → Io (List Tx)} (hm : Probes now m)
    (hf : ∀ out, Changes waits (f out))
    (hout : ∀ out, Ensures (fun _ => True) (fun out' _ => out ⊆ out') (f out)) :
    Probes now (m >>= f) := by
  intro w
  have hw := hm w
  cases hrun : m w with
  | mk res t =>
    rw [hrun] at hw
    cases res with
    | error err =>
      rw [bind_error hrun]
      rcases hw with h | ⟨w₁, hbefore, hafter, -⟩
      · exact .inl h
      · exact .inr ⟨w₁, hbefore, hafter, nofun⟩
    | ok out =>
      rw [bind_ok hrun]
      rcases hw with h | ⟨w₁, hbefore, hafter, hdue⟩
      · exact .inl (waits.trans h (hf out t))
      · refine .inr ⟨w₁, hbefore, waits.trans hafter (hf out t), fun out' hrun' => ?_⟩
        exact List.Subset.trans (hdue out rfl)
          (hout out t out' (f out t).2 trivial (Prod.ext hrun' rfl))

/-- A choice probes if both branches do, the first one given that the second one does. -/
theorem Probes.branch {p : Prop} [Decidable p] {m m' : Io (List Tx)} (hm' : Probes now m')
    (hm : Probes now m' → Probes now m) : Probes now (if p then m else m') := by
  split
  · exact hm hm'
  · exact hm'

/-- The tick of address checks deals with the addresses that are due. -/
theorem tickDad_probes : Probes now (tickDad now) := fun w =>
  .inr ⟨w, waits.refl w, waits.refl _, fun _ h => by cases h; exact List.Subset.refl _⟩

/-- A result that holds what came before. -/
theorem ensures_subset {α : Type} {out : List Tx} {m : Io α} {f : α → Io (List Tx)}
    (h : ∀ a, Ensures (fun _ => True) (fun out' _ => out ⊆ out') (f a)) :
    Ensures (fun _ => True) (fun out' _ => out ⊆ out') (m >>= f) :=
  .bind (fun _ _ _ _ _ => trivial) h

/-- So does the part of a tick before the links, whatever it does besides. The probes are those of
`tickDad`; what comes before and after it leaves the addresses alone. -/
theorem tickState_probes : Probes now (tickState now) := by
  refine .before look_waits fun r => .branch ?_ fun hrest =>
    .before (keeps_waits (finishAttachment_only now) (by decide)) fun _ =>
    .before (update_waits fun r => ⟨rfl, rfl⟩) fun _ =>
    .before (keeps_waits (PdClient.advance_only now) (by decide)) fun _ => hrest
  refine .before (update_waits fun r => ⟨rfl, rfl⟩) fun _ =>
    .before (update_waits fun r => ⟨rfl, rfl⟩) fun _ =>
    .before (keeps_waits (syncPd_only now) (by decide)) fun _ => .before look_waits fun r => ?_
  refine .after tickDad_probes (fun dad => ?_) fun dad => ?_
  · refine .bind (.forM fun l _ =>
      keeps_waits (enableReady_only now _ l) (by cases l <;> decide)) fun _ =>
      .bind (update_waits fun r => ⟨rfl, rfl⟩) fun _ => .bind look_waits fun r =>
      .bind (keeps_waits (tickNeighbors_only now) (by decide)) fun out =>
      .bind (keeps_waits (reconcileExports_only now _) (by decide)) fun _ =>
      .bind look_waits fun r =>
      .when (keeps_waits (changed_only .stub now) (by decide)) fun _ =>
      .bind expire_waits fun _ => .pure _
  · refine ensures_subset fun _ => ensures_subset fun _ => ensures_subset fun _ =>
      ensures_subset fun out =>
      ensures_subset fun _ => ensures_subset fun r => ?_
    have hlast : Ensures (fun _ => True) (fun out' _ => dad ⊆ out')
        (do update (expire now); pure (dad ++ out) : Io (List Tx)) :=
      ensures_subset fun _ => .pure fun _ _ => List.subset_append_left dad out
    exact .branch (fun _ => ensures_subset fun _ => hlast) fun _ => hlast

/-- A tick deals with the addresses that are due once, or not at all. A router that stops or is
stopped does not; any other does in `tickState`. -/
theorem tick_probes (now : Nat) : Probes now (tick now) := by
  refine .before (update_waits fun r => ⟨rfl, rfl⟩) fun _ => .before look_waits fun r => ?_
  split
  · exact .of_waits (.pure _)
  split
  · refine .of_waits (.bind (keeps_waits (stoppingLink_only .ail now) (by decide)) fun _ =>
      .bind (keeps_waits (stoppingLink_only .stub now) (by decide)) fun _ =>
      .bind look_waits fun r =>
      .when (update_waits fun r => ⟨rfl, rfl⟩) fun _ => .pure _)
  · refine .after tickState_probes (fun first => ?_) fun first => ?_
    · exact .bind (keeps_waits (tickLink_only .stub now) (by decide)) fun _ =>
        .bind (keeps_waits (tickLink_only .ail now) (by decide)) fun _ =>
        .bind (keeps_waits (tickPd_only now) (by decide)) fun _ => .pure _
    · refine ensures_subset fun stub => ensures_subset fun ail => ensures_subset fun pd => ?_
      refine .pure fun _ _ => ?_
      rw [List.append_assoc, List.append_assoc]
      exact List.subset_append_left first _

end Ticks

/-! ## Addresses that begin to be checked -/

/-- Addresses of the links `L` begin to be checked, and the packets `g` of the result probe for
them; the other addresses stay. -/
structure Begun {α : Type} (now : Nat) (L : Link → Prop) (g : α → List Tx) (w : World)
    (res : Except IoError α) (w' : World) : Prop where
  up : ∀ l, (w'.router.links.get l).up = (w.router.links.get l).up
  rest : ∀ k, ¬ L k.1 → w'.router.owned.get k = w.router.owned.get k
  new : ∀ k y, w'.router.owned.get k = some y → w.router.owned.get k = some y ∨
    (y.state = .tentative ∧ y.deadline = some (now + 1000) ∧ ∀ a, res = .ok a → Emits (g a) k)

/-- The computation begins to check addresses of the links `L`. -/
def Begins {α : Type} (now : Nat) (L : Link → Prop) (g : α → List Tx) (m : Io α) : Prop :=
  ∀ w, Begun now L g w (m w).1 (m w).2

section Begin

variable {α β : Type} {now : Nat} {L : Link → Prop}

/-- A computation that is steady begins no check. -/
theorem Begins.of_steady {g : α → List Tx} {m : Io α} (h : Changes steady m) :
    Begins now L g m := by
  intro w
  obtain ⟨howned, hup⟩ := h w
  refine ⟨hup, fun k _ => by rw [howned], fun k y hy => .inl ?_⟩
  rwa [howned] at hy

/-- One computation after another, with the packets of both. An error of the first ends the
computation there, with what it did so far. -/
theorem Begins.bind {g : α → List Tx} {g' : β → List Tx} {m : Io α} {f : α → Io β}
    (hm : Begins now L g m) (hf : ∀ a, Begins now L g' (f a))
    (hout : ∀ a, Ensures (fun _ => True) (fun b _ => g a ⊆ g' b) (f a)) :
    Begins now L g' (m >>= f) := by
  intro w
  obtain ⟨hup, hrest, hnew⟩ := hm w
  cases hrun : m w with
  | mk res t =>
    rw [hrun] at hup hrest hnew
    cases res with
    | error err =>
      rw [bind_error hrun]
      refine ⟨hup, hrest, fun k y hy => (hnew k y hy).imp_right fun h => ⟨h.1, h.2.1, nofun⟩⟩
    | ok a =>
      rw [bind_ok hrun]
      obtain ⟨hup', hrest', hnew'⟩ := hf a t
      refine ⟨fun l => (hup' l).trans (hup l), fun k hk => (hrest' k hk).trans (hrest k hk),
        fun k y hy => ?_⟩
      rcases hnew' k y hy with hy | h
      · refine (hnew k y hy).imp_right fun h => ⟨h.1, h.2.1, fun b hb => ?_⟩
        exact (h.2.2 a rfl).mono fun tx htx => hout a t b (f a t).2 trivial (Prod.ext hb rfl) htx
      · exact .inr h

/-- Computations that begin checks one after the other begin them together. By induction on the
list, with the packets of all of them. -/
theorem Begins.mapM {g : β → List Tx} {f : α → Io β} {l : List α}
    (h : ∀ a ∈ l, Begins now L g (f a)) :
    Begins now L (fun bs => bs.flatMap g) (l.mapM f) := by
  induction l with
  | nil => exact .of_steady (.pure [])
  | cons a l ih =>
    rw [List.mapM_cons]
    refine .bind (h a List.mem_cons_self) (fun b => ?_) fun b => ?_
    · refine .bind (ih fun c hc => h c (List.mem_cons_of_mem _ hc)) (fun bs => .of_steady (.pure _))
        fun bs => .pure fun _ _ => ?_
      rw [List.flatMap_cons]
      exact List.subset_append_right _ _
    · refine .bind (fun _ _ _ _ _ => trivial) fun bs => .pure fun _ _ => ?_
      rw [List.flatMap_cons]
      exact List.subset_append_left _ _

/-- Beginning to check an address returns the probe for it. The one entry that changes is the new
one, whose probe is the packet that is returned. -/
theorem beginDad_begins {l : Link} (a : Ipv6Addr) (hl : L l) :
    Begins now L (fun tx => [tx]) (beginDad l a now) := by
  intro w
  obtain ⟨packet, w', hpacket, hrun, hup, howned, -⟩ := beginDad_run l a now w
  rw [hrun]
  refine ⟨hup, fun k hk => ?_, fun k y hy => ?_⟩
  · rw [howned, OrdMap.get_insert_eq, if_neg]
    rintro rfl
    exact hk hl
  · rw [howned, OrdMap.get_insert_eq] at hy
    split at hy
    · next hk =>
      cases hy
      refine .inr ⟨rfl, rfl, fun tx htx => ?_⟩
      cases htx
      subst hk
      exact ⟨packet, hpacket, List.mem_singleton.2 rfl⟩
    · exact .inl hy

/-- Starting begins to check the addresses of both links. -/
theorem start_begins : Begins now (fun _ => True) id (start now) := by
  have hprobes : Begins now (fun _ => True) (fun txs => txs.flatMap fun tx : Tx => [tx])
      ([Link.ail, .stub].mapM fun l => do beginDad l ((← look).identity.linkLocal l) now) := .mapM
    fun l _ => .bind (g := fun _ => []) (.of_steady look_steady) (fun r =>
      beginDad_begins _ trivial)
      fun r => (fun _ _ _ _ _ => List.nil_subset _)
  refine .bind (g := fun _ => []) (.of_steady (update_steady fun r => ⟨rfl, rfl⟩)) (fun _ => ?_)
    fun _ => (fun _ _ _ _ _ => List.nil_subset _)
  simp only [List.flatMap_singleton'] at hprobes
  exact hprobes

/-- Making an address for a service begins to check it, unless there is one or too many. -/
theorem prepareAddress_begins {k : Link × Prefix} (hk : L k.1) :
    Begins now L id (prepareAddress now k) := by
  refine .bind (g := fun _ => []) (.of_steady look_steady) (fun r => ?_)
    fun r => (fun _ _ _ _ _ => List.nil_subset _)
  split
  · exact .of_steady (.pure _)
  split
  · exact .of_steady (.bind (keeps_steady (degrade_only now) (by decide)) fun _ => .fail _)
  · exact .bind (beginDad_begins _ hk) (fun tx => .of_steady (.pure _))
      fun tx => .pure fun _ _ => List.Subset.refl _

/-- Prefixes for services are those of links that are up. By induction on the suppliers, which were
filtered for that. -/
theorem mem_servicePrefixes {r : Router} {k : Link × Prefix}
    (h : k ∈ (r.servicePrefixes now).keys) :
    (r.links.get k.1).up = true := by
  have hfold (l : List ((RouterKey × Prefix) × Supplier)) (m : OrdMap (Link × Prefix) Unit)
      (hl : ∀ e ∈ l, (r.links.get e.1.1.1).up = true)
      (hm : ∀ e ∈ m.entries, (r.links.get e.1.1).up = true) :
      ∀ e ∈ (l.foldl (fun m e => m.insert (e.1.1.1, e.1.2) ()) m).entries,
        (r.links.get e.1.1).up = true := by
    induction l generalizing m with
    | nil => exact hm
    | cons x l ih =>
      refine ih _ (fun e he => hl e (List.mem_cons_of_mem _ he)) fun e he => ?_
      rcases OrdMap.mem_entries_insert he with ⟨he, -⟩ | ⟨he, -⟩
      · exact hm e he
      · rw [sameKey_iff.1 he]
        exact hl x List.mem_cons_self
  obtain ⟨e, he, rfl⟩ := List.mem_map.1 h
  refine hfold _ .empty (fun x hx => ?_) nofun e he
  have hx := (List.mem_filter.1 hx).2
  simp only [Bool.and_eq_true] at hx
  exact hx.1.2

/-- Addresses for services are made on links that are up. The prefixes are those of
`servicePrefixes`, which come from such links. -/
theorem prepare_begun (w : World) :
    Begun now (fun l => (w.router.links.get l).up = true) id w (prepareServiceAddresses now w).1
      (prepareServiceAddresses now w).2 := by
  unfold prepareServiceAddresses
  rw [look_bind_run]
  refine (?_ : Begins now _ id _) w
  refine .bind (g := fun outs => outs.flatMap id)
    (.mapM fun k hk => prepareAddress_begins (mem_servicePrefixes hk))
    (fun outs => .of_steady (.pure _))
    fun outs => .pure fun _ _ => ?_
  rw [List.flatMap_id]
  exact List.Subset.refl _

end Begin

/-! ## One call -/

/-- The calls whose failure ends the program: the driver passes it on. Reference: `runtime.rs:288`,
`runtime.rs:452`, `runtime.rs:191`. -/
def Fatal : Call → Prop
  | .tick | .start | .prepareServiceAddresses => True
  | _ => False

/-- A call has sent the probe for an address, unless it ends the program. -/
def Sent (r : Router) (i : Input) (k : Link × Ipv6Addr) : Prop :=
  match (run r i).1 with
  | .ok out => Emits out k
  | .error _ => Fatal i.call

/-- How an address can have come to be as it is after a call: it was so before, it has yet to be
probed for, the call probes for it, a tick takes it after a probe, or a conflict gives it up. -/
inductive Came (r : Router) (i : Input) (k : Link × Ipv6Addr) (y : OwnedAddress) : Prop
  | kept (h : r.owned.get k = some y)
  | waiting (ht : y.state = .tentative) (hp : ¬ y.Probing)
  | begun (ht : y.state = .tentative) (hd : y.deadline = some (i.now + 1000))
      (he : Sent r i k)
  | taken {x : OwnedAddress} (hx : r.owned.get k = some x) (hp : x.Probing)
      (hd : x.deadline.any (fun t => decide (t ≤ i.now)) = true) (hup : (r.links.get k.1).up = true)
      (htick : i.call = .tick) (hy : y.state = .ready)
  | failed {x : OwnedAddress} (hx : r.owned.get k = some x) (heard : r.Heard i.call k)
      (hdown : ((run r i).2.links.get k.1).up = false) (hy : y.state = .failed)

section Calls

variable {r : Router} {i : Input} {k : Link × Ipv6Addr} {y : OwnedAddress}

/-- Where addresses wait, each one was so before or has yet to be probed for. -/
theorem came_of_waits (h : waits.rel ⟨r, i.draw, 0⟩ (i.call.act i.now ⟨r, i.draw, 0⟩).2)
    (hy : (run r i).2.owned.get k = some y) : Came r i k y :=
  (h.2.1 k y hy).elim .kept fun h => .waiting h.1 h.2

/-- A call whose failure ends the program has sent what it returns. -/
theorem sent_of_fatal (hfatal : Fatal i.call) (h : ∀ out, (run r i).1 = .ok out → Emits out k) :
    Sent r i k := by
  unfold Sent
  split
  · next out hout => exact h out hout
  · exact hfatal

/-- An address that is due, and whose probe is not out, is probed for. -/
theorem dadProbe_emits {r : Router} {now : Nat} {x : OwnedAddress} (hx : r.owned.get k = some x)
    (hup : (r.links.get k.1).up = true) (ht : x.state = .tentative)
    (hd : x.deadline.any (fun t => decide (t ≤ now)) = true)
    (hunsent : x.attempts = 0 ∨ (!x.probeSent) = true) : Emits (r.dueProbes now) k := by
  obtain ⟨packet, hpacket⟩ := dadPacket_ok k.2
  refine ⟨packet, hpacket, List.mem_filterMap.2 ⟨(k, x), OrdMap.mem_iff_get.2 hx, ?_⟩⟩
  unfold dadPacket at hpacket
  simp only [dadProbe, hpacket]
  rw [if_pos ⟨hup, ht, hd, hunsent⟩]

/-- What a tick does to an address: nothing, a probe, or the end of the check. The cases are the
branches of `tickAddress`. -/
theorem tickAddress_cases (r : Router) (now : Nat) (k : Link × Ipv6Addr) (x : OwnedAddress) :
    r.tickAddress now k x = x ∨ ((r.links.get k.1).up = true ∧ x.state = .tentative ∧
      x.deadline.any (fun t => decide (t ≤ now)) = true ∧
      (((x.attempts = 0 ∨ (!x.probeSent) = true) ∧ r.tickAddress now k x =
          { x with
            attempts := max x.attempts 1, probeSent := true, deadline := some (now + 1000) }) ∨
        (x.Probing ∧ r.tickAddress now k x = { x with state := .ready, deadline := none }))) := by
  unfold tickAddress
  split
  · exact .inl rfl
  · next hup =>
    split
    · next hdue =>
      refine .inr ⟨by simpa using hup, hdue.1, hdue.2, ?_⟩
      split
      · next hunsent => exact .inl ⟨hunsent, rfl⟩
      · next hsent =>
        rw [not_or] at hsent
        exact .inr ⟨⟨hdue.1, by simpa using hsent.2, hsent.1⟩, rfl⟩
    · exact .inl rfl

/-- What a tick does to one address. The entry is the one before the tick, or what `tickAddress`
makes of it; the cases are those of `tickAddress_cases`. -/
theorem came_of_tick (hcall : i.call = .tick) (hy : (run r i).2.owned.get k = some y) :
    Came r i k y := by
  have hprobes := tick_probes i.now ⟨r, i.draw, 0⟩
  rw [show tick i.now = i.call.act i.now by rw [hcall]; rfl] at hprobes
  rcases hprobes with h | ⟨w₁, hbefore, hafter, hdue⟩
  · exact came_of_waits h hy
  rcases hafter.2.1 k y hy with hy | h
  · have hy : (w₁.router.owned.mapValues (w₁.router.tickAddress i.now)).get k = some y := hy
    rw [OrdMap.get_mapValues_eq] at hy
    obtain ⟨x, hx, rfl⟩ := Option.map_eq_some_iff.1 hy
    have hbefore' := hbefore.2.1 k x hx
    rcases tickAddress_cases w₁.router i.now k x with
      heq | ⟨hup, ht, hd, ⟨hunsent, heq⟩ | ⟨hp, heq⟩⟩
    · rw [heq]
      exact hbefore'.elim .kept fun h => .waiting h.1 h.2
    · rw [heq]
      refine .begun ht rfl (sent_of_fatal (hcall ▸ trivial) fun out hout => ?_)
      exact (dadProbe_emits hx hup ht hd hunsent).mono fun tx htx => hdue out hout htx
    · rw [heq]
      refine hbefore'.elim (fun hx => .taken hx hp hd ?_ hcall rfl) fun h => absurd hp h.2
      exact (hbefore.1 k.1).symm.trans hup
  · exact .waiting h.1 h.2

/-- What a conflict does to the addresses. One case for each way in which the address is given up:
it has failed, is gone, or is replaced by one that is probed for; the others are kept. -/
theorem came_of_conflict {k' : Link × Ipv6Addr} {x : OwnedAddress} (heard : r.Heard i.call k')
    (h : Abandoned i.draw k' x i.now r (run r i).1 (run r i).2) (hx : r.owned.get k' = some x)
    (hy : (run r i).2.owned.get k = some y) : Came r i k y := by
  generalize hres : (run r i).1 = res at h
  generalize hr' : (run r i).2 = r' at h hy
  cases h with
  | exhausted h3 howned hdown hrest =>
    rw [howned, OrdMap.get_insert_eq] at hy
    split at hy
    · next hk =>
      subst hk
      cases hy
      exact .failed hx heard (hr' ▸ hdown) rfl
    · exact .kept hy
  | undrawn h3 hdraw howned hrest =>
    rw [howned, OrdMap.get_remove_eq] at hy
    split at hy
    · cases hy
    · exact .kept hy
  | retried h3 hdraw hpacket howned hrest =>
    rw [howned] at hy
    split at hy
    · next hk =>
      cases hy
      refine .begun rfl rfl ?_
      unfold Sent
      rw [hres]
      subst hk
      exact ⟨_, hpacket, List.mem_singleton.2 rfl⟩
    · rw [OrdMap.get_remove_eq] at hy
      split at hy
      · cases hy
      · exact .kept hy

/-- A tick changes no link and gives nothing back that was given up. -/
theorem tick_up (hcall : i.call = .tick) (l : Link) :
    ((run r i).2.links.get l).up = (r.links.get l).up := by
  have hprobes := tick_probes i.now ⟨r, i.draw, 0⟩
  rw [show tick i.now = i.call.act i.now by rw [hcall]; rfl] at hprobes
  rcases hprobes with h | ⟨w₁, hbefore, hafter, -⟩
  · exact h.1 l
  · exact (hafter.1 l).trans (hbefore.1 l)

/-- A tick leaves an address that was given up as it is. -/
theorem tick_failed (hcall : i.call = .tick) {x : OwnedAddress} (hx : r.owned.get k = some x)
    (hfailed : x.state = .failed) : (run r i).2.owned.get k = some x := by
  have hprobes := tick_probes i.now ⟨r, i.draw, 0⟩
  rw [show tick i.now = i.call.act i.now by rw [hcall]; rfl] at hprobes
  rcases hprobes with h | ⟨w₁, hbefore, hafter, -⟩
  · exact h.2.2 k x hx hfailed
  · refine hafter.2.2 k x ?_ hfailed
    show (w₁.router.owned.mapValues (w₁.router.tickAddress i.now)).get k = some x
    rw [OrdMap.get_mapValues_eq, hbefore.2.2 k x hx hfailed]
    simp [tickAddress, hfailed]

/-- A run of `set_link` is that function on the router, with no number drawn. -/
theorem setLink_run (r : Router) (l : Link) (up : Bool) (now : Nat) (draw : Random) :
    (run r ⟨.setLink l up, now, draw⟩).2 = (setLink l up now ⟨r, draw, 0⟩).2.router := by
  show ((setLink l up now >>= fun _ => pure []) (⟨r, draw, 0⟩ : World)).2.router = _
  cases hrun : setLink l up now ⟨r, draw, 0⟩ with
  | mk res w' =>
    cases res with
    | error err => rw [bind_error hrun]
    | ok a =>
      rw [bind_ok hrun]
      rfl

/-- Setting a link leaves the addresses alone. -/
theorem setLink_owned (r : Router) {i : Input} {l : Link} {up : Bool} (h : i.call = .setLink l up) :
    (run r i).2.owned = r.owned := by
  obtain ⟨c, now, draw⟩ := i
  cases h
  rw [setLink_run]
  by_cases hexhausted : up = true ∧ r.Exhausted l
  · obtain ⟨rfl, hexhausted⟩ := hexhausted
    rw [setLink_exhausted hexhausted]
  · exact (setLink_told fun hup hex => hexhausted ⟨hup, hex⟩).owned

/-- A link comes up only by being set up, and if no address of it was given up. Setting another link
leaves it as it is. -/
theorem setLink_up {l l' : Link} {up : Bool} (h : i.call = .setLink l' up)
    (hup : ((run r i).2.links.get l).up = true) :
    (r.links.get l).up = true ∨ (i.call = .setLink l true ∧ ¬ r.Exhausted l) := by
  obtain ⟨c, now, draw⟩ := i
  cases h
  rw [setLink_run] at hup
  by_cases hexhausted : up = true ∧ r.Exhausted l'
  · obtain ⟨rfl, hexhausted⟩ := hexhausted
    rw [setLink_exhausted hexhausted] at hup
    exact .inl hup
  · have htold : Told l' up ⟨r, draw, 0⟩ (setLink l' up now ⟨r, draw, 0⟩).2 :=
      setLink_told fun hup hex => hexhausted ⟨hup, hex⟩
    by_cases hl : l = l'
    · subst hl
      rw [htold.told] at hup
      subst hup
      exact .inr ⟨rfl, fun hex => hexhausted ⟨rfl, hex⟩⟩
    · exact .inl ((htold.rest l hl).symm.trans hup)

/-- A router hears packets only on links that are up. -/
theorem Heard.up {c : Call} (h : r.Heard c k) : (r.links.get k.1).up = true := by
  cases c with
  | receive l packet =>
    obtain ⟨rfl, hears⟩ := h
    exact hears.2.1
  | receiveFrame l kind frame =>
    obtain ⟨rfl, -, -, e, t, -, -, -, -, hears⟩ := h
    exact hears.2.1
  | _ => exact h.elim

/-- The kinds of calls, by what they do to the addresses. -/
inductive Deals (r : Router) (i : Input) : Prop
  | conflict {k : Link × Ipv6Addr} {x : OwnedAddress} (heard : r.Heard i.call k)
      (hx : r.owned.get k = some x) (ht : x.state = .tentative)
  | calm (h : waits.rel ⟨r, i.draw, 0⟩ (i.call.act i.now ⟨r, i.draw, 0⟩).2)
  | tick (h : i.call = .tick)
  | link {l : Link} {up : Bool} (h : i.call = .setLink l up)
  | begins {L : Link → Prop} (hfatal : Fatal i.call)
      (hL : i.call = .start ∨ ∀ l, L l → (r.links.get l).up = true)
      (h : Begun i.now L id ⟨r, i.draw, 0⟩
        (i.call.act i.now ⟨r, i.draw, 0⟩).1 (i.call.act i.now ⟨r, i.draw, 0⟩).2)

/-- Every call deals with the addresses in one of these ways. First the calls that bring a message
about an address under test; all others are taken one by one. -/
theorem deals (r : Router) (i : Input) : Deals r i := by
  by_cases hconflict : ∃ k x, r.Heard i.call k ∧ r.owned.get k = some x ∧ x.state = .tentative
  · obtain ⟨k, x, heard, hx, ht⟩ := hconflict
    exact .conflict heard hx ht
  have hquiet : ∀ k x, r.Heard i.call k → r.owned.get k = some x → x.state ≠ .tentative :=
    fun k x heard hx ht => hconflict ⟨k, x, heard, hx, ht⟩
  have hcalm (h : Changes waits (i.call.act i.now)) : Deals r i := .calm (h _)
  obtain ⟨c, now, draw⟩ := i
  cases c with
  | receive l packet =>
    exact .calm (steady.waits (receive_steady fun a x hears => hquiet (l, a) x ⟨rfl, hears⟩))
  | receiveFrame l kind frame => exact .calm (steady.waits (receiveFrame_steady hquiet))
  | resolveOutput tx => exact hcalm (keeps_waits (resolveOutput_only tx) (by decide))
  | start => exact .begins trivial (.inl rfl) (start_begins _)
  | tick => exact .tick rfl
  | transmitted tx success => exact hcalm (.bind (transmitted_waits tx success) fun _ => .pure _)
  | setLink l up => exact .link rfl
  | serviceInventory resolvers ipv4 translator =>
    exact hcalm (.bind (keeps_waits (serviceInventory_only now _ _ _) (by decide)) fun _ => .pure _)
  | prepareServiceAddresses =>
    exact .begins trivial (.inr fun _ h => h) (prepare_begun ⟨r, draw, 0⟩)
  | configureNat64 policy =>
    exact hcalm (.bind (keeps_waits (configureNat64_only now policy) (by decide)) fun _ => .pure _)
  | configureAttachment policy configured =>
    exact hcalm (.bind (keeps_waits (configureAttachment_only now policy configured) (by decide))
      fun _ => .pure _)
  | shutdown => exact hcalm (.bind (keeps_waits (shutdown_only now) (by decide)) fun _ => .pure _)

/-- How every address has come to be as it is after a call. -/
theorem call_came (hy : (run r i).2.owned.get k = some y) : Came r i k y := by
  cases deals r i with
  | conflict heard hx ht =>
    exact came_of_conflict heard (call_conflict i heard hx ht) hx hy
  | calm h => exact came_of_waits h hy
  | tick h => exact came_of_tick h hy
  | link h => exact .kept ((setLink_owned r h) ▸ hy)
  | begins hfatal hL h =>
    exact (h.new k y hy).elim .kept fun h => .begun h.1 h.2.1 (sent_of_fatal hfatal h.2.2)

/-- Nothing but a change of the link brings a link up, and not once an address of it was given
up. -/
theorem call_up {l : Link} (hup : ((run r i).2.links.get l).up = true) :
    (r.links.get l).up = true ∨ (i.call = .setLink l true ∧ ¬ r.Exhausted l) := by
  cases deals r i with
  | @conflict k x heard hx ht =>
    have h := call_conflict i heard hx ht
    generalize (run r i).1 = res at h
    generalize hr' : (run r i).2 = r' at h
    have hup : (r'.links.get l).up = true := hr' ▸ hup
    cases h with
    | exhausted h3 howned hdown hrest =>
      by_cases hl : l = k.1
      · rw [hl, hdown] at hup
        exact nomatch hup
      · exact .inl (hrest l hl ▸ hup)
    | undrawn h3 hdraw howned hrest => exact .inl (hrest l ▸ hup)
    | retried h3 hdraw hpacket howned hrest => exact .inl (hrest l ▸ hup)
  | calm h => exact .inl ((h.1 l).symm.trans hup)
  | tick h => exact .inl ((tick_up h l).symm.trans hup)
  | link h => exact setLink_up h hup
  | begins _ hL h => exact .inl ((h.up l).symm.trans hup)

/-- An address that was given up stays so until the driver starts again. Its link is down, so that
no message about it is heard and no tick looks at it; the other calls leave it as it is. -/
theorem call_failed (hsound : ∀ l, r.Exhausted l → (r.links.get l).up = false)
    (hstart : i.call ≠ .start) {x : OwnedAddress} (hx : r.owned.get k = some x)
    (hfailed : x.state = .failed) :
    (run r i).2.owned.get k = some x := by
  have hdown : (r.links.get k.1).up = false := hsound k.1 ⟨k.2, x, hx, hfailed⟩
  cases deals r i with
  | @conflict k' x' heard hx' ht =>
    have hup := heard.up
    have hne : k.1 ≠ k'.1 := fun h => by rw [h, hup] at hdown; exact nomatch hdown
    have h := call_conflict i heard hx' ht
    generalize (run r i).1 = res at h
    generalize (run r i).2 = r' at h ⊢
    cases h with
    | exhausted h3 howned hdown hrest =>
      rw [howned, OrdMap.get_insert_eq, if_neg, hx]
      rintro rfl
      exact hne rfl
    | undrawn h3 hdraw howned hrest =>
      rw [howned, OrdMap.get_remove_eq, if_neg, hx]
      rintro rfl
      exact hne rfl
    | retried h3 hdraw hpacket howned hrest =>
      rw [howned, if_neg, OrdMap.get_remove_eq, if_neg, hx]
      · rintro rfl
        exact hne rfl
      · rintro rfl
        exact hne rfl
  | calm h => exact h.2.2 k x hx hfailed
  | tick h => exact tick_failed h hx hfailed
  | link h => rw [setLink_owned r h, hx]
  | begins _ hL h =>
    refine (h.rest k fun hk => ?_).trans hx
    rcases hL with hL | hL
    · exact hstart hL
    · rw [hL k.1 hk] at hdown
      exact nomatch hdown

end Calls

end SnacMachine.Router
