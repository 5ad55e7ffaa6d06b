import SnacMachine.Ip.RaWire
import SnacMachine.Router.Outgoing

/-!
# Which prefix the infrastructure link keeps

Routers of this program on one link each advertise a prefix of their own until they hear of a lower
one. A `Group` is any number of them, with the advertisements that they have sent; these stay on
the link and reach any router at any time, any number of times. What a router sends names no
suitable prefix but its own (`Speaks`), so that the router whose prefix is the lowest of those that
were sent has nobody to yield to.
-/

namespace SnacMachine.Router

open Ip Nat64 Act

/-! ## Advertisements on the link -/

/-- The advertisement that a packet is read as. -/
def readRa (packet : Bytes) : Option (Envelope × Nd) :=
  match envelope .rawIpv6 packet with
  | .error _ => none
  | .ok e =>
    match decodeNd e with
    | .error _ => none
    | .ok nd => if nd.kind = 134 then some (e, nd) else none

/-- What a packet must be to be a router advertisement: it is read as a packet, the packet as a
discovery message, and the type is 134. -/
theorem readRa_eq_some {packet : Bytes} {e : Envelope} {nd : Nd} :
    readRa packet = some (e, nd) ↔
      envelope .rawIpv6 packet = .ok e ∧ decodeNd e = .ok nd ∧ nd.kind = 134 := by
  unfold readRa
  constructor
  · intro h
    split at h
    · cases h
    · next e' he =>
      split at h
      · cases h
      · next nd' hnd =>
        split at h
        · next hkind =>
          cases h
          exact ⟨he, hnd, hkind⟩
        · cases h
  · rintro ⟨he, hnd, hkind⟩
    simp only [he, hnd, hkind, if_true]

/-- An advertisement supplies a prefix. -/
def Supplies (nd : Nd) (p : Prefix) : Prop :=
  ∃ o ∈ nd.options, ∃ x, Pio.decode o.bytes = some x ∧ x.suitable = true ∧ x.prefix_ = p

/-- A packet is no advertisement, or one of a router of this program with the prefix `own`. -/
def Speaks (own : Prefix) (packet : Bytes) : Prop :=
  ∀ e nd, readRa packet = some (e, nd) →
    e.destination = allNodes ∧ octet nd.body 5 &&& 2 ≠ 0 ∧ ∀ p, Supplies nd p → p = own

/-- A packet is no advertisement. -/
def Silent (packet : Bytes) : Prop := readRa packet = none

/-- A packet that is no advertisement speaks for no prefix. -/
theorem Silent.speaks {packet : Bytes} (h : Silent packet) (own : Prefix) : Speaks own packet :=
  fun e nd hr => by
    rw [h] at hr
    cases hr

/-- An ICMP packet of another type is no advertisement. -/
theorem silent_icmpPacket {source destination : Ipv6Addr} {hop : UInt8} {body b : Bytes}
    (h : icmpPacket source destination hop body = .ok b) (hkind : octet body 0 ≠ 134) :
    Silent b := by
  rw [Silent, Option.eq_none_iff_forall_ne_some]
  rintro ⟨e, nd⟩ hr
  obtain ⟨he, hnd, hk⟩ := readRa_eq_some.1 hr
  exact hkind (kind_of_icmpPacket h he hnd ▸ hk)

/-! ## The election in one router -/

/-- The prefix that the router would advertise to the infrastructure link. -/
def own (r : Router) : Prefix := r.identity.prefix_ .ail

/-- Prefixes in order. -/
def Lower (p q : Prefix) : Prop := OrdKey.code p < OrdKey.code q

/-- Routers with one site prefix have one own prefix. -/
theorem own_congr {r r' : Router} (h : Agree r r' .site) : r'.own = r.own := by
  simp only [own, Identity.prefix_, show r'.identity.site = r.identity.site from h]

/-- A router that advertises the prefix `p` goes on. -/
def holding (p : Prefix) : Frame World :=
  .keeps fun w => w.router.own = p ∧ w.router.state .ail = .advertising

/-- What an advertisement can do to the election: a router that advertises may begin to
deprecate. -/
def listening : Frame World where
  rel w w' :=
    (w'.router.state .ail = .deprecating →
      w.router.state .ail = .deprecating ∨ w.router.state .ail = .advertising) ∧
      (w'.router.state .ail = .advertising → w.router.state .ail = .advertising)
  refl _ := ⟨.inl, id⟩
  trans h h' := ⟨fun hd => (h'.1 hd).elim h.1 fun ha => .inr (h.2 ha), fun ha => h.2 (h'.2 ha)⟩

/-- Nothing makes the router deprecate its prefix. -/
def calm : Frame World where
  rel w w' := w'.router.state .ail = .deprecating → w.router.state .ail = .deprecating
  refl _ := id
  trans h h' hd := h (h' hd)

/-- The fields that the election reads. -/
def electionReads : List Field := [.site, .link .ail .state]

/-- What is held is read from these fields only. -/
theorem holding_reads (p : Prefix) : Reads (holding p) electionReads := by
  rintro w w' h ⟨hown, hstate⟩
  have hsite := h .site (by decide)
  have hst : w'.router.state .ail = w.router.state .ail := h (.link .ail .state) (by decide)
  exact ⟨(own_congr hsite).trans hown, hst.trans hstate⟩

/-- Whether a router listens is read from these fields only. -/
theorem listening_reads : Reads listening electionReads := by
  intro w w' h
  have hst : w'.router.state .ail = w.router.state .ail := h (.link .ail .state) (by decide)
  exact ⟨fun hd => .inl (hst ▸ hd), fun ha => hst ▸ ha⟩

/-- Calm is about one field. -/
theorem calm_reads : Reads calm [.link .ail .state] := by
  intro w w' h
  have hst : w'.router.state .ail = w.router.state .ail := h (.link .ail .state) (by decide)
  exact fun hd => hst ▸ hd

/-- A router of this program does not yield to a prefix that is not lower. -/
theorem yieldsTo_eq_false {r : Router} {flags : UInt8} {p : Prefix} (hflag : flags &&& 2 ≠ 0)
    (hula : p.ula = true) (hp : ¬ Lower p r.own) : r.yieldsTo .ail flags p = false := by
  have hflag : (flags &&& 2 == 0) = false := beq_eq_false_iff_ne.2 hflag
  have hlt : decide (OrdKey.code p < OrdKey.code (r.identity.prefix_ .ail)) = false :=
    decide_eq_false hp
  simp [yieldsTo, hflag, hula, hlt]

/-- A router that advertises yields to a lower prefix. -/
theorem yieldsTo_eq_true {r : Router} {flags : UInt8} {p : Prefix}
    (hstate : r.state .ail = .advertising) (hula : r.own.ula = true) (hp : Lower p r.own) :
    r.yieldsTo .ail flags p = true := by
  have hlt : OrdKey.code p < OrdKey.code (r.identity.prefix_ .ail) := hp
  have hne : p ≠ r.identity.prefix_ .ail := fun h => absurd hlt (by rw [h]; exact lt_irrefl _)
  have hula : (r.identity.prefix_ .ail).ula = true := hula
  simp [yieldsTo, hstate, hula, hne, hlt]

/-- The end of `observeSupplier`: the supplier is noted. -/
def noteSupplier (key : RouterKey) (p : Pio) (now : Nat) : Io Unit := do
  update fun r => { r with
    suppliers := r.suppliers.insert (key, p.prefix_)
      ⟨p.flags &&& 0x40 != 0, now, .fromSecs now p.preferred, .fromSecs now p.valid⟩ }
  if (← look).state key.1 = .unknown then
    updateLink key.1 fun s => { s with state := .suitable }
    if (← look).linkReady key.1 then enable key.1 now

/-- The beginning of `observeSupplier`: the own prefix yields. -/
def yieldPrefix (l : Link) (now : Nat) : Io Unit := do
  updateLink l fun s => { s with state := .deprecating, deprecateAt := some now }
  changed l now

/-- A prefix of another router is yielded to, or noted. -/
theorem observeSupplier_run (key : RouterKey) (flags : UInt8) (p : Pio) (now : Nat) (w : World) :
    observeSupplier key flags p now w =
      if w.router.yieldsTo key.1 flags p.prefix_ then
        (do yieldPrefix key.1 now; noteSupplier key p now : Io Unit) w
      else noteSupplier key p now w := by
  simp only [observeSupplier, look_bind_run]
  split
  · simp only [yieldPrefix, bind_assoc]
    rfl
  · rfl

section Observing

variable {P : Prefix} {source : Ipv6Addr} {flags : UInt8} {p : Pio} {now : Nat}

/-- Schedulers and suppliers are no part of the election. -/
theorem enable_reads {R : Frame World} (hR : Reads R electionReads) (l : Link) :
    Changes R (enable l now) :=
  (enable_only l now).keeps hR fun a ha hm => by
    rw [List.mem_singleton.1 hm] at ha
    simp [electionReads] at ha

/-- A change of a link is within a frame if the frame reads none of the changed fields. -/
theorem changed_reads {R : Frame World} (hR : Reads R electionReads) (l : Link) :
    Changes R (changed l now) :=
  (changed_only l now).keeps hR fun a ha hm => by
    rw [List.mem_singleton.1 hm] at ha
    simp [electionReads] at ha

/-- Noting a supplier is within a frame if the frame allows the link to become suitable. The state
is changed only if it was not known before. -/
theorem noteSupplier_changes {R : Frame World} (hR : Reads R electionReads)
    (hunknown : ∀ w, w.router.state .ail = .unknown →
      R.rel w (updateLink .ail (fun s => { s with state := .suitable }) w).2) :
    Changes R (noteSupplier (.ail, source) p now) := by
  refine .bind (Changes.keeps (S := [.suppliers]) (update_only fun r a ha => ?_) hR (by decide))
    fun _ => fun w => ?_
  · exact agree_of_restore rfl ha
  simp only [look_bind_run]
  split
  · next h =>
    refine bind_at (hunknown w h) fun _ t _ => ?_
    exact (Changes.bind (look_only.keeps (S := []) hR nofun) fun r =>
      .ite (enable_reads hR .ail) (.pure _) : Changes R (do
        if (← look).linkReady .ail then enable .ail now)) t
  · exact R.refl w

/-- Noting a supplier leaves a router that advertises its prefix as it is. -/
theorem noteSupplier_holding : Changes (holding P) (noteSupplier (.ail, source) p now) :=
  noteSupplier_changes (holding_reads P) fun w h hI => by
    rw [hI.2] at h
    cases h

/-- Noting a supplier keeps a router listening. -/
theorem noteSupplier_listening : Changes listening (noteSupplier (.ail, source) p now) :=
  noteSupplier_changes listening_reads fun _ _ => ⟨nofun, nofun⟩

/-- A supplier of a prefix that is not lower is noted, and the router goes on. -/
theorem observeSupplier_holding (hflag : flags &&& 2 ≠ 0) (hula : p.prefix_.ula = true)
    (hp : ¬ Lower p.prefix_ P) :
    Changes (holding P) (observeSupplier (.ail, source) flags p now) := by
  rintro w ⟨hown, hstate⟩
  rw [observeSupplier_run, yieldsTo_eq_false hflag hula (by rwa [hown])]
  exact noteSupplier_holding w ⟨hown, hstate⟩

/-- Hearing a supplier keeps a router listening. If the supplier makes it give way, the router has
advertised, which the relation allows. -/
theorem observeSupplier_listening :
    Changes listening (observeSupplier (.ail, source) flags p now) := by
  intro w
  rw [observeSupplier_run]
  split
  · next h =>
    have hadv : w.router.state .ail = .advertising := by
      simp only [yieldsTo, Bool.and_eq_true, beq_iff_eq] at h
      exact h.1.1
    refine bind_at (bind_at ?_ fun _ t _ => ?_) fun _ t _ => noteSupplier_listening t
    · exact ⟨fun _ => .inr hadv, nofun⟩
    · exact changed_reads listening_reads .ail t
  · exact noteSupplier_listening w

/-- The parts of an option that do not concern the election. They write the hints and the prefixes
on the link, neither of which is read there. -/
theorem observeOption_changes {R : Frame World} (hR : Reads R electionReads) {o : NdOption}
    (hs : ∀ p, Pio.decode o.bytes = some p → p.suitable = true →
      Changes R (observeSupplier (.ail, source) flags p now)) :
    Changes R (observeOption (.ail, source) flags now o) := by
  unfold observeOption
  split
  · exact .pure _
  · next p hp =>
    refine .when ((observeHint_only now p).keeps hR (by decide)) fun _ => ?_
    refine .when ((observeOnLink_only .ail now p).keeps hR (by decide)) fun _ => ?_
    refine .branch (.ite ?_ (.pure _)) fun h _ => hs p hp h
    refine Changes.keeps (S := [.suppliers]) (update_only fun r a ha => ?_) hR (by decide)
    exact agree_of_restore rfl ha

end Observing

/-! ## Packets -/

section Packets

variable {P Q : Prefix} {packet : Bytes} {now : Nat}

/-- A change of the state of the infrastructure link to anything but `deprecating`. -/
theorem updateState_calm {f : LinkState → LinkState} (h : ∀ s, (f s).state ≠ .deprecating) :
    Changes calm (updateLink .ail f) := fun w hd =>
  absurd hd (h (w.router.links.get .ail))

/-- A solicitation does not change the state of a link. -/
theorem receiveSolicitation_calm (l : Link) (nd : Nd) :
    Changes calm (receiveSolicitation l nd now) := by
  cases l with
  | stub => exact (receiveSolicitation_only .stub now nd).keeps calm_reads (by decide)
  | ail =>
    refine .bind (look_only.keeps (S := []) calm_reads nofun) fun r =>
      .branch ?_ fun _ hrest => .bind ?_ fun _ => .bind ?_ fun _ => hrest
    · exact (receiveRs_only .ail now nd).keeps calm_reads (by decide)
    · exact updateState_calm nofun
    · exact changed_reads (calm_reads.widen (by decide)) .ail

/-- What is no advertisement on the infrastructure link makes no router deprecate. A solicitation
changes timers only, and an advertisement of the stub link its own state. -/
theorem receive_calm {l : Link} (h : l = .stub ∨ Silent packet) :
    Changes calm (receive l packet now) := by
  have hdis : ∀ a ∈ [Field.link .ail .state], a ∉ ownedFields l ++ forwardFields ++
      [.withdrawals, .advertisedRoutes, .link .stub .scheduler] := by
    cases l <;> decide
  refine receive_changes calm_reads l now (by decide) fun e nd he hnd => ?_
  refine receiveNd_changes calm_reads l e nd now hdis
    (fun _ => receiveSolicitation_calm l nd) fun hkind => ?_
  rcases h with rfl | h
  · refine receiveRa_changes calm_reads .stub e nd now (by decide) fun o ho => ?_
    exact (observeOption_only .stub now _ _ o).keeps calm_reads (by decide)
  · rw [Silent, readRa_eq_some.2 ⟨he, hnd, hkind⟩] at h
    cases h

/-- Hearing a packet keeps a router listening. -/
theorem receive_listening : Changes listening (receive .ail packet now) := by
  refine receive_changes listening_reads .ail now (by decide) fun e nd he hnd => ?_
  refine receiveNd_changes listening_reads .ail e nd now (by decide) (fun _ => ?_) fun _ => ?_
  · refine .bind (look_only.keeps (S := []) listening_reads nofun) fun r =>
      .branch ?_ fun _ hrest => .bind ?_ fun _ => .bind ?_ fun _ => hrest
    · exact (receiveRs_only .ail now nd).keeps listening_reads (by decide)
    · exact fun w => ⟨nofun, nofun⟩
    · exact changed_reads listening_reads .ail
  · refine receiveRa_changes listening_reads .ail e nd now (by decide) fun o ho => ?_
    exact observeOption_changes listening_reads fun p _ _ => observeSupplier_listening

/-- An advertisement of a router whose prefix is not lower changes nothing for a router that
advertises. -/
theorem receive_holding (h : Speaks Q packet) (hra : ∃ e nd, readRa packet = some (e, nd))
    (hula : Q.ula = true) (hle : ¬ Lower Q P) :
    Changes (holding P) (receive .ail packet now) := by
  refine receive_changes (holding_reads P) .ail now (by decide) fun e nd he hnd => ?_
  obtain ⟨e', nd', hread⟩ := hra
  obtain ⟨he', hnd', hkind⟩ := readRa_eq_some.1 hread
  rw [he] at he'
  cases he'
  rw [hnd] at hnd'
  cases hnd'
  obtain ⟨-, hflag, hsup⟩ := h e nd hread
  refine receiveNd_changes (holding_reads P) .ail e nd now (by decide) (fun h133 => ?_) fun _ => ?_
  · rw [hkind] at h133
    exact absurd h133 (by decide)
  · refine receiveRa_changes (holding_reads P) .ail e nd now (by decide) fun o ho => ?_
    refine observeOption_changes (holding_reads P) fun p hp hsuit => ?_
    have hQ := hsup p.prefix_ ⟨o, ho, p, hp, hsuit, rfl⟩
    exact observeSupplier_holding hflag (hQ ▸ hula) (hQ ▸ hle)

/-- The router advertises the prefix `p` or has begun to deprecate it. -/
def Contends (p : Prefix) (w : World) : Prop :=
  w.router.own = p ∧ (w.router.state .ail = .advertising ∨ w.router.state .ail = .deprecating)

/-- The router deprecates its prefix `p`. -/
def Gone (p : Prefix) (w : World) : Prop := w.router.own = p ∧ w.router.state .ail = .deprecating

/-- Contention is read from these fields only. -/
theorem contends_reads (p : Prefix) : Reads (.keeps (Contends p)) electionReads := by
  rintro w w' h ⟨hown, hstate⟩
  have hst : w'.router.state .ail = w.router.state .ail := h (.link .ail .state) (by decide)
  exact ⟨(own_congr (h .site (by decide))).trans hown, by rwa [hst]⟩

/-- Whether the prefix is gone is read from these fields only. -/
theorem gone_reads (p : Prefix) : Reads (.keeps (Gone p)) electionReads := by
  rintro w w' h ⟨hown, hstate⟩
  have hst : w'.router.state .ail = w.router.state .ail := h (.link .ail .state) (by decide)
  exact ⟨(own_congr (h .site (by decide))).trans hown, by rwa [hst]⟩

variable {source : Ipv6Addr} {flags : UInt8} {x : Pio}

/-- Noting a supplier keeps the router in contention. -/
theorem noteSupplier_contends : Changes (.keeps (Contends P)) (noteSupplier (.ail, source) x now) :=
  noteSupplier_changes (contends_reads P) fun w h hI => by
    rcases hI.2 with hs | hs <;> rw [hs] at h <;> cases h

/-- Noting a supplier does not bring the prefix back. -/
theorem noteSupplier_gone : Changes (.keeps (Gone P)) (noteSupplier (.ail, source) x now) :=
  noteSupplier_changes (gone_reads P) fun w h hI => by
    rw [hI.2] at h
    cases h

/-- The own prefix is deprecated from here on. -/
theorem yieldPrefix_gone {w : World} (h : w.router.own = P) :
    Gone P (yieldPrefix .ail now w).2 := by
  have hchanged := (changed_reads (gone_reads P) .ail : Changes _ (changed .ail now))
    (updateLink .ail (fun s => { s with state := .deprecating, deprecateAt := some now }) w).2
  exact hchanged ⟨h, rfl⟩

/-- Hearing a supplier does not bring the prefix back. -/
theorem observeSupplier_gone :
    Changes (.keeps (Gone P)) (observeSupplier (.ail, source) flags x now) := by
  intro w hw
  have hno : w.router.yieldsTo .ail flags x.prefix_ = false := by
    simp [yieldsTo, hw.2]
  rw [observeSupplier_run, hno]
  exact noteSupplier_gone w hw

/-- Hearing a supplier leaves a router in contention: at most it begins to deprecate its prefix. -/
theorem observeSupplier_contends :
    Changes (.keeps (Contends P)) (observeSupplier (.ail, source) flags x now) := by
  intro w hw
  rw [observeSupplier_run]
  split
  · refine bind_at (R := .keeps (Contends P)) (fun _ => ?_) (fun _ t _ =>
      noteSupplier_contends t) hw
    exact (yieldPrefix_gone hw.1).imp_right .inr
  · exact noteSupplier_contends w hw

/-- A router that contends gives way to a lower prefix. If it still advertises it gives way now; if
it deprecates already it stays so. -/
theorem observeSupplier_lower (hula : P.ula = true) (hp : Lower x.prefix_ P) :
    Ensures (Contends P) (fun _ => Gone P) (observeSupplier (.ail, source) flags x now) := by
  intro w _ w' hw hrun
  rcases hw with ⟨hown, hadv | hdep⟩
  · rw [observeSupplier_run, yieldsTo_eq_true hadv (by rwa [hown]) (by rwa [hown]),
      if_pos rfl] at hrun
    obtain ⟨_, t, ht, hnote⟩ := bind_eq_ok hrun
    have hgone : Gone P t := by
      have hyield : Gone P (yieldPrefix .ail now w).2 := yieldPrefix_gone hown
      rwa [ht] at hyield
    exact (Changes.yields noteSupplier_gone) t () w' hgone hnote
  · exact (Changes.yields observeSupplier_gone) w () w' ⟨hown, hdep⟩ hrun

/-- An option with a suitable lower prefix. The parts before the supplier change nothing of what the
election reads. -/
theorem observeOption_lower {o : NdOption} (hx : Pio.decode o.bytes = some x)
    (hsuit : x.suitable = true) (hula : P.ula = true) (hp : Lower x.prefix_ P) :
    Ensures (Contends P) (fun _ => Gone P) (observeOption (.ail, source) flags now o) := by
  have hhint : Ensures (Contends P) (fun _ => Contends P) (observeHint x now) :=
    ((observeHint_only now x).keeps (contends_reads P) (by decide)).yields
  have honlink : Ensures (Contends P) (fun _ => Contends P) (observeOnLink .ail x now) :=
    ((observeOnLink_only .ail now x).keeps (contends_reads P) (by decide)).yields
  unfold observeOption
  rw [hx]
  refine .bind hhint fun _ => .branch (fun _ => .bind honlink fun _ => ?_) fun _ => ?_
  · rw [if_pos hsuit]
    exact observeSupplier_lower hula hp
  · rw [if_pos hsuit]
    exact observeSupplier_lower hula hp

/-- A router that advertises and processes an advertisement that supplies a lower prefix begins to
deprecate its own. -/
theorem receiveRa_lower {e : Envelope} {nd : Nd} {p : Prefix} (hsup : Supplies nd p)
    (hula : P.ula = true) (hp : Lower p P) :
    Ensures (Contends P) (fun _ => Gone P) (receiveRa .ail e nd now) := by
  have hkeep {m : Io Unit} {S : List Field} (h : Changes (only S) m)
      (hS : ∀ a ∈ electionReads, a ∉ S) :
      Ensures (Contends P) (fun _ => Contends P) m := (h.keeps (contends_reads P) hS).yields
  obtain ⟨o, ho, x, hx, hsuit, rfl⟩ := hsup
  refine .bind (hkeep (admitRa_only .ail now e nd) (by decide)) fun _ => ?_
  refine .bind (hkeep (observeEvidence_only .ail now e nd) (by decide)) fun _ => ?_
  refine .bind (hkeep (observeRoutes_only now _ nd) (by decide)) fun _ => ?_
  refine .bind (hkeep (insertHeader_only _ _) (by decide)) fun _ => ?_
  refine .bind (.forM_mem ho (fun o _ => ?_) (fun o _ => ?_) (observeOption_lower hx hsuit hula hp))
    fun _ => ?_
  · exact (observeOption_changes (contends_reads P) fun _ _ _ => observeSupplier_contends).yields
  · exact (observeOption_changes (gone_reads P) fun _ _ _ => observeSupplier_gone).yields
  · exact ((syncPd_only now).keeps (gone_reads P) (by decide)).yields

/-- Hearing the advertisement of a lower prefix takes the own one back. The message is no neighbor
message, so it gets to `receive_ra`, which does it (`receiveRa_lower`); what comes after that does
not touch the fields that this is read from. -/
theorem receiveNd_lower {e : Envelope} {nd : Nd} {p : Prefix} (hkind : nd.kind = 134)
    (hsup : Supplies nd p) (hula : P.ula = true) (hp : Lower p P) :
    Ensures (Contends P) (fun _ => Gone P) (receiveNd .ail e nd now) := by
  have hgone {α : Type} {m : Io α} {S : List Field} (h : Changes (only S) m)
      (hS : ∀ a ∈ electionReads, a ∉ S) : Ensures (Gone P) (fun _ => Gone P) m :=
    (h.keeps (gone_reads P) hS).yields
  have hlook : Ensures (Contends P) (fun _ => Contends P) look :=
    (look_only.keeps (S := []) (contends_reads P) nofun).yields
  have howned : Ensures (Contends P) (fun out w => out = none ∧ Contends P w)
      (ownedNd .ail e nd now) := by
    unfold ownedNd
    rw [if_pos (by rw [hkind]; decide)]
    exact .pure fun w hw => ⟨rfl, hw⟩
  refine .bind hlook fun r => .bind howned fun out => ?_
  cases out with
  | some out =>
    intro w a w' hw
    cases hw.1
  | none =>
    dsimp only
    rw [if_neg (by rw [hkind]; decide), if_pos hkind]
    refine .bind ((receiveRa_lower hsup hula hp).mono (fun w hw => hw.2) fun _ _ h => h) fun _ => ?_
    refine .bind (hgone (observeNeighbor_only now .ail e nd) (by decide)) fun out => ?_
    refine .bind (hgone (reconcileExports_only now _) (by decide)) fun _ => ?_
    refine .bind (hgone (S := []) look_only nofun) fun r => ?_
    have hlast : Ensures (Gone P) (fun _ => Gone P) (do
        update fun r => r.reapExports now
        pure out : Io (List Tx)) := by
      refine .bind (hgone (S := [.withdrawals, .advertisedRoutes]) (update_only fun r a ha => ?_)
        (by decide)) fun _ => .pure fun w hw => hw
      exact agree_of_restore rfl ha
    exact .branch (fun _ => .bind (hgone (changed_only .stub now) (by decide)) fun _ => hlast)
      fun _ => hlast

/-- The router takes an advertisement from the infrastructure link: it runs, the link is up and the
packet is not its own. -/
def Takes (r : Router) (e : Envelope) : Prop :=
  r.lifecycle.ending = false ∧ r.links.ail.up = true ∧
    ¬ (e.source = r.identity.linkLocal .ail ∧ r.addressReady .ail e.source = true)

/-- What an advertisement is not: a DHCP reply, since its protocol is ICMPv6, and an echo request,
since its type is 134. -/
theorem readRa_other {e : Envelope} {nd : Nd} (h : readRa packet = some (e, nd)) (r : Router) :
    r.isDhcpReply .ail e = false ∧ r.echoReply .ail e now = none := by
  obtain ⟨-, hnd, hkind⟩ := readRa_eq_some.1 h
  obtain ⟨t, ht, hp, hk, -⟩ := decodeNd_eq_ok hnd
  constructor
  · simp [isDhcpReply, ht, hp]
  · have hhead : t.bytes.take 2 ≠ [128, 0] := by
      intro h2
      have h0 : octet t.bytes 0 = 128 := by
        cases hb : t.bytes with
        | nil =>
          rw [hb] at h2
          cases h2
        | cons x b =>
          rw [hb, List.take_succ_cons] at h2
          exact (List.cons.inj h2).1
      rw [← hk, hkind] at h0
      exact absurd h0 (by decide)
    unfold echoReply
    split
    · simp only [ht]
      rw [if_neg fun hc => hhead hc.2.2.2.1]
    · rfl

/-- Receiving the advertisement of a lower prefix takes the own one back, if the router takes the
packet. -/
theorem receive_lower {e : Envelope} {nd : Nd} {p : Prefix} (hread : readRa packet = some (e, nd))
    (hdst : e.destination.isMulticast = true) (hsup : Supplies nd p) (hula : P.ula = true)
    (hp : Lower p P) :
    Ensures (fun w => Contends P w ∧ Takes w.router e) (fun _ => Gone P)
      (receive .ail packet now) := by
  obtain ⟨he, hnd, hkind⟩ := readRa_eq_some.1 hread
  rintro w out w' ⟨hcont, hend, hup, hsrc⟩ hrun
  obtain ⟨hdhcp, hecho⟩ : _ ∧ w.router.echoReply .ail e now = none := readRa_other hread w.router
  have hcond : ¬ (w.router.lifecycle.ending || !(w.router.links.get .ail).up) = true := by
    simp [hend, Both.get, hup]
  simp only [receive, look_bind_run, if_neg hcond, he, if_neg hsrc, hdhcp, hecho, hdst, hnd,
    Bool.false_eq_true, if_false, Bool.not_true, Bool.false_and] at hrun
  exact receiveNd_lower hkind hsup hula hp w out w' hcont hrun

end Packets

end SnacMachine.Router
